import Mathlib.Algebra.Order.BigOperators.Group.List
import Mathlib.Algebra.Order.Ring.Rat
import Mathlib.Tactic.FieldSimp
import Mathlib.Tactic.Linarith
import Mathlib.Tactic.Ring
import SequenceChart.Proofs.Grid.Points

/-! Gaps under constraints, with lengths read as exact rationals. No constraint narrows a gap, so what one
constraint reached is still there after all others. -/

namespace SequenceChart

namespace AxisConstraint

def Widens : AxisConstraint Rat → Prop
  | .add _ before after => 0 ≤ before ∧ 0 ≤ after
  | _ => True

def Within (last : Nat) : AxisConstraint Rat → Prop
  | .floor place _ _ => place ≤ last
  | .add place _ _ => place ≤ last
  | .span start stop _ => start ≤ last ∧ stop ≤ last

def added (gap : Nat) : AxisConstraint Rat → Rat
  | .add place before after => (if place = gap then before else 0) + (if place + 1 = gap then after else 0)
  | _ => 0

/-- Whether the gaps give the constraint its room. Two places with the same number are never apart. -/
def Holds (gaps : Gaps Rat) : AxisConstraint Rat → Prop
  | .floor place before after => before ≤ gaps place ∧ after ≤ gaps (place + 1)
  | .add _ _ _ => True
  | .span start stop length =>
    start ≠ stop ∨ length ≤ 0 → length ≤ ((Grid.between start stop).map gaps).sum

theorem Holds.mono {gaps wider : Gaps Rat} (hwider : ∀ i, gaps i ≤ wider i) {c : AxisConstraint Rat}
    (h : c.Holds gaps) : c.Holds wider := by
  cases c with
  | floor place before after => exact ⟨h.1.trans (hwider place), h.2.trans (hwider (place + 1))⟩
  | add => trivial
  | span start stop length =>
    intro hapart
    exact (h hapart).trans (List.sum_le_sum fun i _ => hwider i)

end AxisConstraint

namespace Gaps

theorem zero_eq : (0.0 : Rat) = 0 := by norm_num

theorem same_iff {last i j : Nat} (hi : i ≤ last + 1) (hj : j ≤ last + 1) : Same last i j ↔ i = j := by
  unfold Same
  omega

theorem same_iff_of_le {last i j : Nat} (hi : i ≤ last) : Same last i j ↔ j = i := by
  unfold Same
  omega

theorem widen_max {gaps : Gaps Rat} (hgaps : ∀ i, 0 ≤ gaps i) (last place : Nat) (amount : Rat) :
    (if amount == 0.0 then gaps else modify last gaps place (max · amount)) = fun i =>
      max (gaps i) (if Same last place i then amount else 0) := by
  funext i
  by_cases hzero : amount = 0
  · simp [hzero, zero_eq, hgaps i]
  · rw [zero_eq, if_neg (by simpa using hzero)]
    unfold modify
    split
    · rfl
    · exact (max_eq_left (hgaps i)).symm

theorem widen_add (gaps : Gaps Rat) (last place : Nat) (amount : Rat) :
    (if amount == 0.0 then gaps else modify last gaps place (· + amount)) = fun i =>
      gaps i + (if Same last place i then amount else 0) := by
  funext i
  by_cases hzero : amount = 0
  · simp [hzero, zero_eq]
  · rw [zero_eq, if_neg (by simpa using hzero)]
    unfold modify
    split
    · rfl
    · exact (add_zero _).symm

theorem sides_max {gaps : Gaps Rat} (hgaps : ∀ i, 0 ≤ gaps i) (last place : Nat) (before after : Rat) :
    sides last max gaps place before after = fun i =>
      max (max (gaps i) (if Same last place i then before else 0))
        (if Same last (Grid.behind last place) i then after else 0) := by
  unfold sides
  dsimp only
  rw [widen_max hgaps, widen_max]
  intro i
  exact le_max_of_le_left (hgaps i)

theorem sides_add (gaps : Gaps Rat) (last place : Nat) (before after : Rat) :
    sides last (· + ·) gaps place before after = fun i =>
      gaps i + (if Same last place i then before else 0) + (if Same last (Grid.behind last place) i then after else 0) := by
  unfold sides
  dsimp only
  rw [widen_add, widen_add]

def deficit (gaps : Gaps Rat) (between : List Nat) (length : Rat) : Rat :=
  max (length - (between.map gaps).sum) 0 / between.length

theorem foldl_add_eq_sum (lengths : List Rat) (start : Rat) :
    lengths.foldl (· + ·) start = start + lengths.sum := by
  induction lengths generalizing start with
  | nil => simp
  | cons first later ih => rw [List.foldl_cons, ih, List.sum_cons, add_assoc]

theorem share?_eq (lengths : List Rat) (length : Rat) :
    Grid.share? lengths length =
      if lengths ≠ [] ∧ lengths.sum < length then some ((length - lengths.sum) / lengths.length) else none := by
  have hsum : lengths.foldl (· + ·) (0.0 : Rat) = lengths.sum := by
    rw [foldl_add_eq_sum, zero_eq, zero_add]
  unfold Grid.share?
  dsimp only
  erw [hsum]

theorem sides_raise {gaps : Gaps Rat} (hgaps : ∀ i, 0 ≤ gaps i) {share : Rat} (hshare : 0 ≤ share)
    {last place : Nat} (hplace : place ≤ last) :
    sides last max gaps place (gaps place + share) 0.0 = fun i =>
      if i = place then gaps i + share else gaps i := by
  rw [sides_max hgaps]
  funext i
  have hi := hgaps i
  simp only [same_iff_of_le hplace, zero_eq, ite_self]
  split
  · subst i
    have hraise : max (gaps place) (gaps place + share) = gaps place + share :=
      max_eq_right (by linarith)
    rw [hraise, max_eq_left (by linarith)]
  · rw [max_eq_left hi, max_eq_left hi]

/-- Gaps raised one after another by the same share are raised at once, as each is met only once. -/
theorem foldl_raise {share : Rat} (hshare : 0 ≤ share) {last : Nat} {between : List Nat}
    (hnodup : between.Nodup) (hlast : ∀ i ∈ between, i ≤ last) {gaps : Gaps Rat} (hgaps : ∀ i, 0 ≤ gaps i) :
    between.foldl (fun gaps i => sides last max gaps i (gaps i + share) 0.0) gaps = fun i =>
      if i ∈ between then gaps i + share else gaps i := by
  induction between generalizing gaps with
  | nil => simp
  | cons first later ih =>
    have hfresh : first ∉ later := (List.nodup_cons.mp hnodup).1
    have hlater := List.forall_mem_of_forall_mem_cons hlast
    have hraised : ∀ i, 0 ≤ if i = first then gaps i + share else gaps i := by
      intro i
      have hi := hgaps i
      split <;> linarith
    rw [List.foldl_cons, sides_raise hgaps hshare (hlast first List.mem_cons_self),
      ih (List.nodup_cons.mp hnodup).2 hlater hraised]
    funext i
    by_cases hi : i = first
    · subst hi
      simp [hfresh]
    · simp [hi]

theorem length_pos_of_ne_nil {between : List Nat} (h : between ≠ []) : (0 : Rat) < between.length := by
  exact_mod_cast List.length_pos_iff.mpr h

theorem deficit_nonneg (gaps : Gaps Rat) (between : List Nat) (length : Rat) :
    0 ≤ deficit gaps between length :=
  div_nonneg (le_max_right _ _) (Nat.cast_nonneg _)

/-- A span widens every gap between its places by the same share of what is missing, and no other gap. -/
theorem spread_eq {gaps : Gaps Rat} (hgaps : ∀ i, 0 ≤ gaps i) {last : Nat} {between : List Nat}
    (hnodup : between.Nodup) (hlast : ∀ i ∈ between, i ≤ last) (length : Rat) :
    spread last gaps between length = fun i =>
      if i ∈ between then gaps i + deficit gaps between length else gaps i := by
  unfold spread
  rw [share?_eq]
  by_cases hshort : between.map gaps ≠ [] ∧ (between.map gaps).sum < length
  · rw [if_pos hshort]
    have hdeficit : deficit gaps between length =
        (length - (between.map gaps).sum) / (between.map gaps).length := by
      rw [deficit, max_eq_left (by linarith [hshort.2]), List.length_map]
    rw [← hdeficit]
    exact foldl_raise (deficit_nonneg _ _ _) hnodup hlast hgaps
  · rw [if_neg hshort]
    funext i
    by_cases hi : i ∈ between
    · have hne : between.map gaps ≠ [] := List.ne_nil_of_mem (List.mem_map_of_mem hi)
      have hlong : length ≤ (between.map gaps).sum := not_lt.mp fun hlt => hshort ⟨hne, hlt⟩
      have hzero : deficit gaps between length = 0 := by
        rw [deficit, max_eq_right (by linarith), zero_div]
      rw [if_pos hi, hzero, add_zero]
    · rw [if_neg hi]

theorem sum_map_add (gaps : Gaps Rat) (share : Rat) (between : List Nat) :
    (between.map fun i => gaps i + share).sum = (between.map gaps).sum + between.length * share := by
  induction between with
  | nil => simp
  | cons i later ih =>
    simp only [List.map_cons, List.sum_cons, ih, List.length_cons]
    push_cast
    ring

theorem sum_spread {gaps : Gaps Rat} (hgaps : ∀ i, 0 ≤ gaps i) {last : Nat} {between : List Nat}
    (hnodup : between.Nodup) (hlast : ∀ i ∈ between, i ≤ last) (hne : between ≠ []) (length : Rat) :
    (between.map (spread last gaps between length)).sum = max (between.map gaps).sum length := by
  have hpos := length_pos_of_ne_nil hne
  have hmap : between.map (spread last gaps between length) =
      between.map fun i => gaps i + deficit gaps between length := by
    apply List.map_congr_left
    intro i hi
    rw [spread_eq hgaps hnodup hlast]
    exact if_pos hi
  rw [hmap, sum_map_add, deficit, mul_div_cancel₀ _ (ne_of_gt hpos)]
  cases le_total (between.map gaps).sum length with
  | inl hle => rw [max_eq_left (by linarith), max_eq_right hle]; ring
  | inr hle => rw [max_eq_right (by linarith), max_eq_left hle]; ring

theorem nodup_between (start stop : Nat) : (Grid.between start stop).Nodup := List.nodup_range'

theorem mem_between {start stop i : Nat} :
    i ∈ Grid.between start stop ↔ min start stop < i ∧ i ≤ max start stop := by
  rw [Grid.between, List.mem_range'_1]
  omega

theorem between_ne_nil {start stop : Nat} (h : start ≠ stop) : Grid.between start stop ≠ [] := by
  apply List.ne_nil_of_mem (a := max start stop)
  rw [mem_between]
  omega

theorem between_self (place : Nat) : Grid.between place place = [] := by
  rw [Grid.between, Nat.sub_eq_zero_of_le (Nat.le_of_eq (by omega))]
  rfl

theorem le_of_mem_between {start stop last : Nat} (h : start ≤ last ∧ stop ≤ last) :
    ∀ i ∈ Grid.between start stop, i ≤ last := by
  intro i hi
  rw [mem_between] at hi
  omega

theorem apply_span {gaps : Gaps Rat} (hgaps : ∀ i, 0 ≤ gaps i) {last start stop : Nat}
    (hwithin : start ≤ last ∧ stop ≤ last) (length : Rat) :
    apply last gaps (.span start stop length) = fun i =>
      if i ∈ Grid.between start stop then gaps i + deficit gaps (Grid.between start stop) length else gaps i :=
  spread_eq hgaps (nodup_between start stop) (le_of_mem_between hwithin) length

theorem le_apply {gaps : Gaps Rat} (hgaps : ∀ i, 0 ≤ gaps i) {last : Nat} {c : AxisConstraint Rat}
    (hwithin : c.Within last) (hwidens : c.Widens) (i : Nat) : gaps i ≤ apply last gaps c i := by
  cases c with
  | floor place before after =>
    have hsides : apply last gaps (.floor place before after) = _ := sides_max hgaps last place before after
    rw [hsides]
    exact le_max_of_le_left (le_max_left _ _)
  | add place before after =>
    have hsides : apply last gaps (.add place before after) = _ := sides_add gaps last place before after
    obtain ⟨hbefore, hafter⟩ := hwidens
    rw [hsides]
    dsimp only
    split <;> split <;> linarith
  | span start stop length =>
    have hshare := deficit_nonneg gaps (Grid.between start stop) length
    rw [apply_span hgaps hwithin]
    dsimp only
    split <;> linarith

theorem added_le_apply {gaps : Gaps Rat} (hgaps : ∀ i, 0 ≤ gaps i) {last : Nat} {c : AxisConstraint Rat}
    (hwithin : c.Within last) {i : Nat} (hi : i ≤ last + 1) : gaps i + c.added i ≤ apply last gaps c i := by
  cases c with
  | floor place before after =>
    have hle := le_apply hgaps hwithin (c := .floor place before after) trivial i
    simpa only [AxisConstraint.added, add_zero] using hle
  | add place before after =>
    have hplace : place ≤ last := hwithin
    have hsides : apply last gaps (.add place before after) = _ := sides_add gaps last place before after
    rw [hsides]
    simp only [AxisConstraint.added, Grid.behind_of_le hplace, same_iff (Nat.le_succ_of_le hplace) hi,
      same_iff (Nat.succ_le_succ hplace) hi]
    rw [add_assoc]
  | span start stop length =>
    have hle := le_apply hgaps hwithin (c := .span start stop length) trivial i
    simpa only [AxisConstraint.added, add_zero] using hle

theorem holds_apply {gaps : Gaps Rat} (hgaps : ∀ i, 0 ≤ gaps i) {last : Nat} {c : AxisConstraint Rat}
    (hwithin : c.Within last) : c.Holds (apply last gaps c) := by
  cases c with
  | floor place before after =>
    have hsides : apply last gaps (.floor place before after) = _ := sides_max hgaps last place before after
    have hplace : place ≤ last := hwithin
    rw [hsides]
    constructor
    · simp
    · simp [Grid.behind_of_le hplace]
  | add => trivial
  | span start stop length =>
    intro hapart
    by_cases hsame : start = stop
    · subst hsame
      rw [between_self]
      exact hapart.resolve_left (fun hne => hne rfl)
    · have hsum := sum_spread hgaps (nodup_between start stop) (le_of_mem_between hwithin)
        (between_ne_nil hsame) length
      exact (le_max_right _ _).trans (ge_of_eq hsum)

/-- What all constraints ask for is there at the end of a run, in whatever order they came. -/
theorem run_reaches {last : Nat} {constraints : List (AxisConstraint Rat)}
    (hwithin : ∀ c ∈ constraints, c.Within last) (hwidens : ∀ c ∈ constraints, c.Widens) {gaps : Gaps Rat}
    (hgaps : ∀ i, 0 ≤ gaps i) :
    (∀ i, gaps i ≤ run last gaps constraints i) ∧
      (∀ c ∈ constraints, c.Holds (run last gaps constraints)) ∧
      ∀ i ≤ last + 1, gaps i + (constraints.map (·.added i)).sum ≤ run last gaps constraints i := by
  induction constraints generalizing gaps with
  | nil => exact ⟨fun i => le_refl _, nofun, fun i _ => by simp [run]⟩
  | cons c later ih =>
    obtain ⟨hc, hlater⟩ := List.forall_mem_cons.mp hwithin
    obtain ⟨hcw, hlaterw⟩ := List.forall_mem_cons.mp hwidens
    have hstep := le_apply hgaps hc hcw
    have hafter : ∀ i, 0 ≤ apply last gaps c i := fun i => (hgaps i).trans (hstep i)
    obtain ⟨hle, hholds, hadded⟩ := ih hlater hlaterw hafter
    refine ⟨fun i => (hstep i).trans (hle i), ?_, ?_⟩
    · exact List.forall_mem_cons.mpr ⟨(holds_apply hgaps hc).mono hle, hholds⟩
    · intro i hi
      have hhere := added_le_apply hgaps hc hi
      have hrest := hadded i hi
      rw [List.map_cons, List.sum_cons]
      change gaps i + (c.added i + _) ≤ run last (apply last gaps c) later i
      linarith

/-- What gaps have when no constraint is left wanting. -/
structure Reach (last : Nat) (gaps : Gaps Rat) (constraints : List (AxisConstraint Rat)) : Prop where
  nonneg : ∀ i, 0 ≤ gaps i
  holds : ∀ c ∈ constraints, c.Holds gaps
  added : ∀ i ≤ last + 1, (constraints.map (·.added i)).sum ≤ gaps i

theorem reach_run {last : Nat} {constraints : List (AxisConstraint Rat)}
    (hwithin : ∀ c ∈ constraints, c.Within last) (hwidens : ∀ c ∈ constraints, c.Widens) :
    Reach last (run last (fun _ => 0) constraints) constraints := by
  have hclosed : ∀ i, (0 : Rat) ≤ (fun _ => 0 : Gaps Rat) i := fun _ => le_refl 0
  obtain ⟨hnonneg, hholds, hadded⟩ := run_reaches hwithin hwidens hclosed
  refine ⟨hnonneg, hholds, ?_⟩
  intro i hi
  have hsum := hadded i hi
  rwa [zero_add] at hsum

end Gaps

end SequenceChart
