import SequenceChart.Proofs.Grid.Satisfied

/-! Gaps of an axis that no span crosses. There a constraint changes every gap for itself, so what becomes of
one gap can be followed from constraint to constraint, exactly and not only from below. -/

namespace SequenceChart

namespace AxisConstraint

def Level : AxisConstraint Rat → Prop
  | .span start stop _ => start = stop
  | _ => True

/-- What becomes of a gap under a level constraint. -/
def widen (gap : Nat) : AxisConstraint Rat → Rat → Rat
  | .floor place before after, x =>
    let x := if place = gap ∧ before ≠ 0 then max x before else x
    if place + 1 = gap ∧ after ≠ 0 then max x after else x
  | .add place before after, x =>
    let x := if place = gap then x + before else x
    if place + 1 = gap then x + after else x
  | .span _ _ _, x => x

theorem le_widen {c : AxisConstraint Rat} (hwidens : c.Widens) (gap : Nat) (x : Rat) : x ≤ c.widen gap x := by
  cases c with
  | floor place before after =>
    have hraise : ∀ (here : Prop) [Decidable here] (x side : Rat), x ≤ if here then max x side else x := by
      intro here _ x side
      split
      · exact le_max_left _ _
      · exact le_refl x
    exact (hraise _ x before).trans (hraise _ _ after)
  | add place before after =>
    obtain ⟨hbefore, hafter⟩ := hwidens
    unfold widen
    dsimp only
    split <;> split <;> linarith
  | span => exact le_refl x

end AxisConstraint

namespace Gaps

theorem modify_apply {last : Nat} (gaps : Gaps Rat) {place i : Nat} (hplace : place ≤ last + 1) (hi : i ≤ last + 1)
    (f : Rat → Rat) : modify last gaps place f i = if place = i then f (gaps i) else gaps i := by
  unfold modify
  simp only [same_iff hplace hi]

theorem sides_apply {last : Nat} (op : Rat → Rat → Rat) (gaps : Gaps Rat) {place i : Nat} (hplace : place ≤ last)
    (hi : i ≤ last + 1) (before after : Rat) :
    sides last op gaps place before after i =
      let x := if place = i ∧ before ≠ 0 then op (gaps i) before else gaps i
      if place + 1 = i ∧ after ≠ 0 then op x after else x := by
  have hbefore : ∀ gaps : Gaps Rat,
      (if before == 0.0 then gaps else modify last gaps place (op · before)) i =
        if place = i ∧ before ≠ 0 then op (gaps i) before else gaps i := by
    intro gaps
    by_cases hzero : before = 0
    · simp [hzero, zero_eq]
    · rw [zero_eq, if_neg (by simpa using hzero), modify_apply gaps (Nat.le_succ_of_le hplace) hi]
      simp [hzero]
  unfold sides
  dsimp only
  rw [← hbefore gaps]
  by_cases hzero : after = 0
  · simp [hzero, zero_eq]
  · rw [if_neg (by simpa [zero_eq] using hzero), Grid.behind_of_le hplace, modify_apply _ (Nat.succ_le_succ hplace) hi]
    simp [hzero]

theorem apply_level {gaps : Gaps Rat} {last : Nat} {c : AxisConstraint Rat} (hwithin : c.Within last)
    (hlevel : c.Level) {i : Nat} (hi : i ≤ last + 1) : apply last gaps c i = c.widen i (gaps i) := by
  cases c with
  | floor place before after => exact sides_apply max gaps hwithin hi before after
  | add place before after =>
    refine (sides_apply (· + ·) gaps hwithin hi before after).trans ?_
    unfold AxisConstraint.widen
    by_cases hbefore : before = 0 <;> by_cases hafter : after = 0 <;> simp [hbefore, hafter]
  | span start stop length =>
    obtain rfl : start = stop := hlevel
    change spread last gaps (Grid.between start start) length i = gaps i
    rw [between_self]
    rfl

theorem run_level {last : Nat} {constraints : List (AxisConstraint Rat)}
    (hwithin : ∀ c ∈ constraints, c.Within last) (hlevel : ∀ c ∈ constraints, c.Level) (gaps : Gaps Rat) {i : Nat}
    (hi : i ≤ last + 1) : run last gaps constraints i = constraints.foldl (fun x c => c.widen i x) (gaps i) := by
  induction constraints generalizing gaps with
  | nil => rfl
  | cons c later ih =>
    obtain ⟨hc, hlater⟩ := List.forall_mem_cons.mp hwithin
    obtain ⟨hcl, hlaterl⟩ := List.forall_mem_cons.mp hlevel
    rw [List.foldl_cons, ← apply_level hc hcl hi]
    exact ih hlater hlaterl _

end Gaps

namespace Constraint

/-- The constraint keeps to a grid with this last row and this last column, takes no room away, and does not
hold rows apart by a span. -/
structure Fits (rows cols : Nat) (c : Constraint Rat) : Prop where
  inGrid : c.InGrid rows cols
  widens : c.Widens
  level : c.vertical.Level

variable {rows cols row col : Nat}

theorem fits_floor (hrow : row ≤ rows) (hcol : col ≤ cols) (sides : Sides Rat) :
    (floor ⟨row, col⟩ sides).Fits rows cols :=
  ⟨⟨hrow, hcol⟩, trivial, trivial⟩

theorem fits_add_horizontal (hrow : row ≤ rows) (hcol : col ≤ cols) {left right : Rat} (hleft : 0 ≤ left)
    (hright : 0 ≤ right) : (add ⟨row, col⟩ (.horizontal left right)).Fits rows cols :=
  ⟨⟨hrow, hcol⟩, ⟨⟨hleft, hright⟩, le_of_eq Gaps.zero_eq.symm, le_of_eq Gaps.zero_eq.symm⟩, trivial⟩

theorem fits_add_vertical (hrow : row ≤ rows) (hcol : col ≤ cols) {top bottom : Rat} (htop : 0 ≤ top)
    (hbottom : 0 ≤ bottom) : (add ⟨row, col⟩ (.vertical top bottom)).Fits rows cols :=
  ⟨⟨hrow, hcol⟩, ⟨⟨le_of_eq Gaps.zero_eq.symm, le_of_eq Gaps.zero_eq.symm⟩, htop, hbottom⟩, trivial⟩

theorem fits_span {start stop : Nat} (hrow : row ≤ rows) (hstart : start ≤ cols) (hstop : stop ≤ cols)
    (size : Size Rat) : (span ⟨row, start⟩ ⟨row, stop⟩ size).Fits rows cols :=
  ⟨⟨⟨hrow, hstart⟩, hrow, hstop⟩, trivial, rfl⟩

variable (pos : GridPos) (gap : Nat) (x : Rat)

@[simp] theorem widen_floor_horizontal (left right : Rat) :
    (floor pos (.horizontal left right)).vertical.widen gap x = x := by
  simp [vertical, Sides.horizontal, AxisConstraint.widen, Gaps.zero_eq]

@[simp] theorem widen_add_horizontal (left right : Rat) :
    (add pos (.horizontal left right)).vertical.widen gap x = x := by
  simp [vertical, Sides.horizontal, AxisConstraint.widen, Gaps.zero_eq]

theorem widen_span (start stop : GridPos) (size : Size Rat) :
    (span start stop size).vertical.widen gap x = x := by
  rw [vertical, AxisConstraint.widen]

theorem widen_floor_of_ne {pos : GridPos} {gap : Nat} (hrow : pos.row ≠ gap) (sides : Sides Rat) :
    (floor pos sides).vertical.widen gap x =
      if pos.row + 1 = gap ∧ sides.bottom ≠ 0 then max x sides.bottom else x := by
  simp [vertical, AxisConstraint.widen, hrow]

end Constraint

namespace Graphic

variable {σ : Type} [GridItem σ Rat] {g : Graphic σ Rat}

theorem reach_cols (h : ∀ c ∈ g.constraints, c.Fits g.grid.rows g.grid.cols) :
    Gaps.Reach g.grid.cols g.colGaps (g.constraints.map Constraint.horizontal) :=
  Gaps.reach_run (List.forall_mem_map.mpr fun c hc => Constraint.within_horizontal (h c hc).inGrid)
    (List.forall_mem_map.mpr fun c hc => Constraint.widens_horizontal (h c hc).widens)

theorem reach_rows (h : ∀ c ∈ g.constraints, c.Fits g.grid.rows g.grid.cols) :
    Gaps.Reach g.grid.rows g.rowGaps (g.constraints.map Constraint.vertical) :=
  Gaps.reach_run (List.forall_mem_map.mpr fun c hc => Constraint.within_vertical (h c hc).inGrid)
    (List.forall_mem_map.mpr fun c hc => Constraint.widens_vertical (h c hc).widens)

def widen (g : Graphic σ Rat) (gap : Nat) (x : Rat) (placed : Placed σ) : Rat :=
  (GridItem.constraints placed.item placed.pos g.grid.rows g.grid.cols).foldl
    (fun x c => c.vertical.widen gap x) x

/-- The gap before a row is what the items make of it, one after another. -/
theorem rowGaps_eq_foldl (h : ∀ c ∈ g.constraints, c.Fits g.grid.rows g.grid.cols) {gap : Nat}
    (hgap : gap ≤ g.grid.rows + 1) : g.rowGaps gap = g.items.foldl (g.widen gap) 0 := by
  have hwithin := List.forall_mem_map.mpr fun c hc => Constraint.within_vertical (h c hc).inGrid
  have hlevel := List.forall_mem_map.mpr fun c hc => (h c hc).level
  rw [rowGaps, Gaps.run_level hwithin hlevel _ hgap, List.foldl_map, constraints, List.foldl_flatMap]
  rfl

end Graphic

end SequenceChart
