import SequenceChart.Proofs.Grid.Level

/-! Columns between the margins of a picture. What constraints ask for on either side of a column is there before the
margin is reached, also next to the first column and to the last one. -/

namespace SequenceChart

namespace Gaps

variable (start : Rat) {gaps : Gaps Rat} (hgaps : ∀ i, 0 ≤ gaps i)

include hgaps

theorem start_add_le_position (i : Nat) : start + gaps i ≤ position start gaps i := by
  cases i with
  | zero => exact le_refl _
  | succ i => exact add_le_add_left (le_position start hgaps i) _

theorem position_add_le {i last : Nat} (h : i ≤ last) :
    position start gaps i + gaps (i + 1) ≤ position start gaps last + gaps (last + 1) :=
  position_mono start hgaps (Nat.succ_le_succ h)

omit hgaps in
/-- Room on top of what was there, in the gap after the first position and in the one before the last, lies outside of
all between. -/
theorem position_inside {inner : Gaps Rat} (hinner : ∀ i, 0 ≤ inner i) (hle : ∀ i, inner i ≤ gaps i) {room : Rat}
    {last i : Nat} (hfirst : inner 1 + room ≤ gaps 1) (hlast : inner last + room ≤ gaps last) (hpos : 0 < i)
    (hi : i + 1 < last) :
    position start gaps 0 + room + inner i ≤ position start gaps i ∧
      position start gaps i + inner (i + 1) ≤ position start gaps last - room := by
  have hgaps : ∀ i, 0 ≤ gaps i := fun i => (hinner i).trans (hle i)
  have hstep : ∀ i, position start gaps (i + 1) = position start gaps i + gaps (i + 1) := fun _ => rfl
  obtain ⟨i, rfl⟩ : ∃ before, i = before + 1 := ⟨i - 1, by omega⟩
  obtain ⟨last, rfl⟩ : ∃ before, last = before + 1 := ⟨last - 1, by omega⟩
  have hhere := hle (i + 1)
  have hnext := hle (i + 1 + 1)
  have hend : position start gaps (i + 1 + 1) ≤ position start gaps last := position_mono start hgaps (by omega)
  rw [hstep (i + 1)] at hend
  rw [hstep last]
  constructor
  · rw [hstep i]
    cases i with
    | zero => linarith
    | succ i =>
      have hone : position start gaps 1 ≤ position start gaps (i + 1) := position_mono start hgaps (by omega)
      rw [hstep 0] at hone
      linarith [hinner 1]
  · linarith [hinner (last + 1)]

end Gaps

def Constraint.cols : Constraint Rat → List Nat
  | .floor pos _ => [pos.col]
  | .add pos _ => [pos.col]
  | .span start stop _ => [start.col, stop.col]

namespace Grid

def colX (g : Grid Rat) (col : Nat) : Rat := (g.point 0 col).x

/-- What the columns of a resolved grid do for constraints between two edges. -/
structure Provides (g : Grid Rat) (left right : Rat) (constraints : List (Constraint Rat)) : Prop where
  aligned : ∀ row col, (g.point row col).x = g.colX col
  ordered : Monotone g.colX
  within : ∀ c ∈ constraints, ∀ col ∈ c.cols, left ≤ g.colX col ∧ g.colX col ≤ right
  floors : ∀ {pos sides}, .floor pos sides ∈ constraints →
    left + sides.left ≤ g.colX pos.col ∧ g.colX pos.col + sides.right ≤ right
  adds : ∀ {pos sides}, .add pos sides ∈ constraints →
    left + sides.left ≤ g.colX pos.col ∧ g.colX pos.col + sides.right ≤ right
  spans : ∀ {start stop size}, .span start stop size ∈ constraints → start.col ≠ stop.col →
    size.width ≤ |g.colX start.col - g.colX stop.col|

namespace Provides

variable {g : Grid Rat} {left right : Rat} {constraints fewer : List (Constraint Rat)}

theorem subset (h : g.Provides left right constraints) (hsub : ∀ c ∈ fewer, c ∈ constraints) :
    g.Provides left right fewer where
  aligned := h.aligned
  ordered := h.ordered
  within c hc := h.within c (hsub c hc)
  floors hc := h.floors (hsub _ hc)
  adds hc := h.adds (hsub _ hc)
  spans hc := h.spans (hsub _ hc)

theorem floor_within (h : g.Provides left right constraints) {pos : GridPos} {sides : Sides Rat}
    (hc : .floor pos sides ∈ constraints) : left ≤ g.colX pos.col ∧ g.colX pos.col ≤ right :=
  h.within _ hc _ List.mem_cons_self

theorem add_within (h : g.Provides left right constraints) {pos : GridPos} {sides : Sides Rat}
    (hc : .add pos sides ∈ constraints) : left ≤ g.colX pos.col ∧ g.colX pos.col ≤ right :=
  h.within _ hc _ List.mem_cons_self

theorem span_within (h : g.Provides left right constraints) {start stop : GridPos} {size : Size Rat}
    (hc : .span start stop size ∈ constraints) :
    (left ≤ g.colX start.col ∧ g.colX start.col ≤ right) ∧ left ≤ g.colX stop.col ∧ g.colX stop.col ≤ right :=
  ⟨h.within _ hc _ List.mem_cons_self, h.within _ hc _ (List.mem_cons_of_mem _ List.mem_cons_self)⟩

end Provides

end Grid

theorem Constraint.InGrid.cols_le {c : Constraint Rat} {rows cols : Nat} (h : c.InGrid rows cols) :
    ∀ col ∈ c.cols, col ≤ cols := by
  cases c with
  | floor pos sides => exact List.forall_mem_singleton.mpr h.2
  | add pos sides => exact List.forall_mem_singleton.mpr h.2
  | span start stop size => exact List.forall_mem_cons.mpr ⟨h.1.2, List.forall_mem_singleton.mpr h.2.2⟩

theorem AxisConstraint.added_le_sum {constraints : List (AxisConstraint Rat)}
    (hwidens : ∀ c ∈ constraints, c.Widens) {c : AxisConstraint Rat} (hc : c ∈ constraints) (i : Nat) :
    c.added i ≤ (constraints.map (·.added i)).sum := by
  refine List.single_le_sum (List.forall_mem_map.mpr fun c hc => ?_) _ (List.mem_map_of_mem hc)
  have hwide := hwidens c hc
  cases c with
  | add place before after =>
    obtain ⟨hbefore, hafter⟩ := hwide
    unfold AxisConstraint.added
    dsimp only
    split <;> split <;> linarith
  | _ => exact le_refl 0

namespace Graphic

variable {σ : Type} [GridItem σ Rat] {g : Graphic σ Rat}

theorem colX_resolve {col : Nat} (h : col ≤ g.grid.cols) :
    g.resolve.1.grid.colX col = Gaps.position g.margin g.colGaps col := by
  rw [Grid.colX, point_resolve, Nat.min_eq_left h]

theorem colX_mono (h : ∀ c ∈ g.constraints, c.Fits g.grid.rows g.grid.cols) : Monotone g.resolve.1.grid.colX := by
  intro col next hle
  unfold Grid.colX
  rw [point_resolve, point_resolve]
  exact Gaps.position_mono g.margin (reach_cols h).nonneg (min_le_min_right _ hle)

/-- Columns provide for constraints between two edges if gaps that reach what these ask for keep between the
edges on both sides of each column. -/
theorem provides_of_reach (h : ∀ c ∈ g.constraints, c.Fits g.grid.rows g.grid.cols)
    {constraints : List (Constraint Rat)} (hsub : ∀ c ∈ constraints, c ∈ g.constraints) {gaps : Gaps Rat}
    (hreach : Gaps.Reach g.grid.cols gaps (constraints.map Constraint.horizontal))
    {fewer : List (Constraint Rat)} (hfewer : ∀ c ∈ fewer, c ∈ constraints) {left right : Rat}
    (hsides : ∀ c ∈ fewer, ∀ col ∈ c.cols, left + gaps col ≤ g.resolve.1.grid.colX col ∧
      g.resolve.1.grid.colX col + gaps (col + 1) ≤ right) :
    g.resolve.1.grid.Provides left right fewer := by
  have hroom : ∀ c ∈ fewer, ∀ col ∈ c.cols, ∀ {before after : Rat}, before ≤ gaps col → after ≤ gaps (col + 1) →
      left + before ≤ g.resolve.1.grid.colX col ∧ g.resolve.1.grid.colX col + after ≤ right := by
    intro c hc col hcol before after hbefore hafter
    obtain ⟨hleft, hright⟩ := hsides c hc col hcol
    constructor <;> linarith
  constructor
  case aligned => exact fun row col => by rw [Grid.colX, point_resolve, point_resolve]
  case ordered => exact colX_mono h
  case within =>
    intro c hc col hcol
    have hwithin := hroom c hc col hcol (hreach.nonneg _) (hreach.nonneg _)
    rwa [add_zero, add_zero] at hwithin
  case floors =>
    intro pos sides hc
    obtain ⟨hbefore, hafter⟩ := hreach.holds _ (List.mem_map_of_mem (hfewer _ hc))
    exact hroom _ hc _ List.mem_cons_self hbefore hafter
  case adds =>
    intro pos sides hc
    have hcol : pos.col ≤ g.grid.cols := (h _ (hsub _ (hfewer _ hc))).inGrid.2
    have hwidens : ∀ c ∈ constraints.map Constraint.horizontal, c.Widens :=
      List.forall_mem_map.mpr fun c hc => Constraint.widens_horizontal (h c (hsub c hc)).widens
    -- The sum of all additions is there, so each of them is.
    have hadded : ∀ {i : Nat}, i ≤ g.grid.cols + 1 → (Constraint.add pos sides).horizontal.added i ≤ gaps i :=
      fun hi => (AxisConstraint.added_le_sum hwidens (List.mem_map_of_mem (hfewer _ hc)) _).trans (hreach.added _ hi)
    have hbefore := hadded (Nat.le_succ_of_le hcol)
    have hafter := hadded (Nat.succ_le_succ hcol)
    simp only [Constraint.horizontal, AxisConstraint.added, if_true, Nat.succ_ne_self, if_false, add_zero] at hbefore
    simp only [Constraint.horizontal, AxisConstraint.added, if_true, (Nat.succ_ne_self _).symm, if_false,
      zero_add] at hafter
    exact hroom _ hc _ List.mem_cons_self hbefore hafter
  case spans =>
    intro start stop size hc hne
    have hmem := hsub _ (hfewer _ hc)
    obtain ⟨⟨-, hstart⟩, -, hstop⟩ := (h _ hmem).inGrid
    rw [colX_resolve hstart, colX_resolve hstop, Gaps.abs_position_sub g.margin (reach_cols h).nonneg]
    exact (reach_cols h).holds _ (List.mem_map_of_mem hmem) (.inl hne)

theorem provides_beside (h : ∀ c ∈ g.constraints, c.Fits g.grid.rows g.grid.cols) {col : Nat}
    (hcol : col + 2 ≤ g.grid.cols) {fewer : List (Constraint Rat)} (hfewer : ∀ c ∈ fewer, c ∈ g.constraints)
    (honly : ∀ c ∈ fewer, ∀ other ∈ c.cols, other = col + 1) :
    g.resolve.1.grid.Provides (g.resolve.1.grid.colX col) (g.resolve.1.grid.colX (col + 2)) fewer := by
  refine provides_of_reach h (fun _ => id) (reach_cols h) hfewer fun c hc other hother => ?_
  obtain rfl := honly c hc other hother
  rw [colX_resolve (show col ≤ g.grid.cols by omega), colX_resolve (show col + 1 ≤ g.grid.cols by omega),
    colX_resolve hcol]
  exact ⟨le_refl _, le_refl _⟩

theorem provides (h : ∀ c ∈ g.constraints, c.Fits g.grid.rows g.grid.cols) :
    g.resolve.1.grid.Provides g.margin (g.resolve.2.width - g.margin) g.constraints := by
  have hreach := reach_cols h
  -- The margin on the right follows the gap after the last column.
  have hright : g.resolve.2.width - g.margin =
      Gaps.position g.margin g.colGaps g.grid.cols + g.colGaps (g.grid.cols + 1) := by
    rw [size_resolve]
    dsimp only
    rw [max_eq_right (Gaps.le_position g.margin hreach.nonneg _)]
    ring
  refine provides_of_reach h (fun _ => id) hreach (fun _ => id) fun c hc col hcol => ?_
  have hle := (h c hc).inGrid.cols_le col hcol
  rw [colX_resolve hle, hright]
  exact ⟨Gaps.start_add_le_position g.margin hreach.nonneg col, Gaps.position_add_le g.margin hreach.nonneg hle⟩

/-- Room that is added next to the first and to the last column once all else has been asked for keeps what stands
on the columns between them so far inside. -/
theorem provides_inside (h : ∀ c ∈ g.constraints, c.Fits g.grid.rows g.grid.cols)
    {early late : List (Constraint Rat)} (hsplit : g.constraints = early ++ late) {room : Rat}
    {first last : Constraint Rat} (hfirst : first ∈ late) (hlast : last ∈ late)
    (hroomFirst : room ≤ first.horizontal.added 1) (hroomLast : room ≤ last.horizontal.added g.grid.cols)
    {fewer : List (Constraint Rat)} (hfewer : ∀ c ∈ fewer, c ∈ early)
    (hinner : ∀ c ∈ fewer, ∀ col ∈ c.cols, 0 < col ∧ col + 1 < g.grid.cols) :
    g.resolve.1.grid.Provides (g.resolve.1.grid.colX 0 + room) (g.resolve.1.grid.colX g.grid.cols - room) fewer := by
  have hboth : ∀ c, c ∈ g.constraints ↔ c ∈ early ∨ c ∈ late := by
    intro c
    rw [hsplit, List.mem_append]
  have hwithin : ∀ c ∈ g.constraints.map Constraint.horizontal, c.Within g.grid.cols :=
    List.forall_mem_map.mpr fun c hc => Constraint.within_horizontal (h c hc).inGrid
  have hwidens : ∀ c ∈ g.constraints.map Constraint.horizontal, c.Widens :=
    List.forall_mem_map.mpr fun c hc => Constraint.widens_horizontal (h c hc).widens
  have hgaps : g.colGaps = Gaps.run g.grid.cols (Gaps.run g.grid.cols (fun _ => 0) (early.map Constraint.horizontal))
      (late.map Constraint.horizontal) := by
    unfold colGaps
    rw [hsplit, List.map_append]
    exact List.foldl_append
  rw [hsplit, List.map_append, List.forall_mem_append] at hwithin hwidens
  have hreach := Gaps.reach_run hwithin.1 hwidens.1
  obtain ⟨hle, -, hadded⟩ := Gaps.run_reaches hwithin.2 hwidens.2 hreach.nonneg
  rw [← hgaps] at hle hadded
  have hafter : ∀ {c : Constraint Rat}, c ∈ late → ∀ i ≤ g.grid.cols + 1, ∀ {room : Rat},
      room ≤ c.horizontal.added i → Gaps.run g.grid.cols (fun _ => 0) (early.map Constraint.horizontal) i + room ≤
        g.colGaps i := by
    intro c hc i hi room hroom
    have hsum := AxisConstraint.added_le_sum hwidens.2 (List.mem_map_of_mem hc) i
    have hgap := hadded i hi
    linarith
  refine provides_of_reach h (fun c hc => (hboth c).mpr (.inl hc)) hreach hfewer fun c hc col hcol => ?_
  obtain ⟨hpos, hlt⟩ := hinner c hc col hcol
  rw [colX_resolve (Nat.zero_le _), colX_resolve (show col ≤ g.grid.cols by omega), colX_resolve (le_refl _)]
  exact Gaps.position_inside g.margin hreach.nonneg hle (hafter hfirst 1 (by omega) hroomFirst)
    (hafter hlast g.grid.cols (Nat.le_succ _) hroomLast) hpos hlt

end Graphic

end SequenceChart
