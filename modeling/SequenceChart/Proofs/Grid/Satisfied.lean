import SequenceChart.Proofs.Grid.Widening

/-! What a resolved graphic satisfies, read off the points of its grid and the size of its picture alone, with
lengths as exact rationals. -/

namespace SequenceChart

namespace Gaps

theorem position_sub (start : Rat) (gaps : Gaps Rat) {i j : Nat} (h : i ≤ j) :
    position start gaps j - position start gaps i = ((List.range' (i + 1) (j - i)).map gaps).sum := by
  induction j, h using Nat.le_induction with
  | base => simp
  | succ j hij ih =>
    have hlast : i + 1 + (j - i) = j + 1 := by omega
    rw [Nat.succ_sub hij, List.range'_1_concat, hlast, List.map_append, List.sum_append, ← ih]
    simp only [position, List.map_cons, List.map_nil, List.sum_cons, List.sum_nil]
    ring

theorem sum_nonneg {gaps : Gaps Rat} (hgaps : ∀ i, 0 ≤ gaps i) (numbers : List Nat) :
    0 ≤ (numbers.map gaps).sum := by
  apply List.sum_nonneg
  intro gap hgap
  obtain ⟨i, _, rfl⟩ := List.mem_map.mp hgap
  exact hgaps i

theorem position_mono (start : Rat) {gaps : Gaps Rat} (hgaps : ∀ i, 0 ≤ gaps i) {i j : Nat} (h : i ≤ j) :
    position start gaps i ≤ position start gaps j := by
  have hsub := position_sub start gaps h
  have hsum := sum_nonneg hgaps (List.range' (i + 1) (j - i))
  linarith

theorem le_position (start : Rat) {gaps : Gaps Rat} (hgaps : ∀ i, 0 ≤ gaps i) (i : Nat) :
    start ≤ position start gaps i := by
  have hfirst : position start gaps 0 = start + gaps 0 := rfl
  have hmono := position_mono start hgaps (Nat.zero_le i)
  have hgap := hgaps 0
  linarith

theorem gap_before (start : Rat) (gaps : Gaps Rat) (i : Nat) :
    (position start gaps i - if i = 0 then start else position start gaps (i - 1)) = gaps i := by
  cases i with
  | zero => rw [if_pos rfl, position, add_sub_cancel_left]
  | succ i => rw [if_neg (Nat.succ_ne_zero i), position, Nat.add_sub_cancel, add_sub_cancel_left]

theorem abs_position_sub (start : Rat) {gaps : Gaps Rat} (hgaps : ∀ i, 0 ≤ gaps i) (i j : Nat) :
    |position start gaps i - position start gaps j| = ((Grid.between i j).map gaps).sum := by
  cases Nat.le_total i j with
  | inl h =>
    rw [abs_sub_comm, position_sub start gaps h, abs_of_nonneg (sum_nonneg hgaps _), Grid.between,
      Nat.min_eq_left h, Nat.max_eq_right h]
  | inr h =>
    rw [position_sub start gaps h, abs_of_nonneg (sum_nonneg hgaps _), Grid.between,
      Nat.min_eq_right h, Nat.max_eq_left h]

end Gaps

namespace Constraint

/-- Whether all places of the constraint are on a grid with this last row and this last column. -/
def InGrid {α : Type} (rows cols : Nat) : Constraint α → Prop
  | floor pos _ => pos.row ≤ rows ∧ pos.col ≤ cols
  | add pos _ => pos.row ≤ rows ∧ pos.col ≤ cols
  | span start stop _ => (start.row ≤ rows ∧ start.col ≤ cols) ∧ stop.row ≤ rows ∧ stop.col ≤ cols

/-- Whether the constraint takes no room away. -/
def Widens : Constraint Rat → Prop
  | add _ sides => (0 ≤ sides.left ∧ 0 ≤ sides.right) ∧ 0 ≤ sides.top ∧ 0 ≤ sides.bottom
  | _ => True

instance {α : Type} (rows cols : Nat) : (c : Constraint α) → Decidable (c.InGrid rows cols)
  | floor _ _ => inferInstanceAs (Decidable (_ ∧ _))
  | add _ _ => inferInstanceAs (Decidable (_ ∧ _))
  | span _ _ _ => inferInstanceAs (Decidable (_ ∧ _))

instance : (c : Constraint Rat) → Decidable c.Widens
  | floor _ _ => inferInstanceAs (Decidable True)
  | add _ _ => inferInstanceAs (Decidable (_ ∧ _))
  | span _ _ _ => inferInstanceAs (Decidable True)

theorem within_horizontal {rows cols : Nat} {c : Constraint Rat} (h : c.InGrid rows cols) :
    c.horizontal.Within cols := by
  cases c with
  | floor => exact h.2
  | add => exact h.2
  | span => exact ⟨h.1.2, h.2.2⟩

theorem within_vertical {rows cols : Nat} {c : Constraint Rat} (h : c.InGrid rows cols) :
    c.vertical.Within rows := by
  cases c with
  | floor => exact h.1
  | add => exact h.1
  | span => exact ⟨h.1.1, h.2.1⟩

theorem widens_horizontal {c : Constraint Rat} (h : c.Widens) : c.horizontal.Widens := by
  cases c with
  | add => exact h.1
  | _ => trivial

theorem widens_vertical {c : Constraint Rat} (h : c.Widens) : c.vertical.Widens := by
  cases c with
  | add => exact h.2
  | _ => trivial

end Constraint

namespace Graphic

variable {σ : Type}

def left (g : Graphic σ Rat) (pos : GridPos) : Rat :=
  (g.grid.point pos.row pos.col).x -
    if pos.col = 0 then g.margin else (g.grid.point pos.row (pos.col - 1)).x

def right (g : Graphic σ Rat) (size : Size Rat) (pos : GridPos) : Rat :=
  (if pos.col = g.grid.cols then size.width - g.margin else (g.grid.point pos.row (pos.col + 1)).x) -
    (g.grid.point pos.row pos.col).x

def above (g : Graphic σ Rat) (pos : GridPos) : Rat :=
  (g.grid.point pos.row pos.col).y -
    if pos.row = 0 then g.margin else (g.grid.point (pos.row - 1) pos.col).y

def below (g : Graphic σ Rat) (size : Size Rat) (pos : GridPos) : Rat :=
  (if pos.row = g.grid.rows then size.height - g.margin else (g.grid.point (pos.row + 1) pos.col).y) -
    (g.grid.point pos.row pos.col).y

/-- All constraints have the room they ask for in a picture of the graphic. On an axis on which the places
of a span are the same, it has nothing to ask for. -/
structure Satisfied (constraints : List (Constraint Rat)) (g : Graphic σ Rat) (size : Size Rat) : Prop where
  floors : ∀ pos sides, .floor pos sides ∈ constraints →
    (sides.left ≤ g.left pos ∧ sides.right ≤ g.right size pos) ∧
      sides.top ≤ g.above pos ∧ sides.bottom ≤ g.below size pos
  spans : ∀ start stop room, .span start stop room ∈ constraints →
    (start.col ≠ stop.col ∨ room.width ≤ 0 →
      room.width ≤ |(g.grid.point start.row start.col).x - (g.grid.point stop.row stop.col).x|) ∧
    (start.row ≠ stop.row ∨ room.height ≤ 0 →
      room.height ≤ |(g.grid.point start.row start.col).y - (g.grid.point stop.row stop.col).y|)
  adds : ∀ pos, g.grid.Contains pos →
    ((constraints.map (·.horizontal.added pos.col)).sum ≤ g.left pos ∧
      (constraints.map (·.horizontal.added (pos.col + 1))).sum ≤ g.right size pos) ∧
    (constraints.map (·.vertical.added pos.row)).sum ≤ g.above pos ∧
      (constraints.map (·.vertical.added (pos.row + 1))).sum ≤ g.below size pos
  columns : ∀ row {col next}, col ≤ next → (g.grid.point row col).x ≤ (g.grid.point row next).x
  rows : ∀ col {row next}, row ≤ next → (g.grid.point row col).y ≤ (g.grid.point next col).y

section Resolve

variable [GridItem σ Rat] (g : Graphic σ Rat)

def colGaps : Gaps Rat := Gaps.run g.grid.cols (fun _ => 0) (g.constraints.map Constraint.horizontal)

def rowGaps : Gaps Rat := Gaps.run g.grid.rows (fun _ => 0) (g.constraints.map Constraint.vertical)

theorem colGap_constrained :
    (Grid.constrained g.grid.rows g.grid.cols g.constraints).colGap = g.colGaps := by
  rw [Grid.constrained, Grid.colGap_foldl_apply (beq_self_eq_true (0.0 : Rat)), Grid.colGap_empty, Gaps.zero_eq]
  rfl

theorem rowGap_constrained :
    (Grid.constrained g.grid.rows g.grid.cols g.constraints).rowGap = g.rowGaps := by
  rw [Grid.constrained, Grid.rowGap_foldl_apply (beq_self_eq_true (0.0 : Rat)), Grid.rowGap_empty, Gaps.zero_eq]
  rfl

theorem rows_resolve : g.resolve.1.grid.rows = g.grid.rows := g.grid.rows_resolve g.margin g.constraints

theorem cols_resolve : g.resolve.1.grid.cols = g.grid.cols := g.grid.cols_resolve g.margin g.constraints

theorem point_resolve (row col : Nat) :
    g.resolve.1.grid.point row col =
      ⟨Gaps.position g.margin g.colGaps (min col g.grid.cols),
        Gaps.position g.margin g.rowGaps (min row g.grid.rows)⟩ := by
  have hpoint := g.grid.point_resolve g.margin g.constraints row col
  rw [colGap_constrained, rowGap_constrained] at hpoint
  exact hpoint

theorem size_resolve :
    g.resolve.2 =
      ⟨max g.margin (Gaps.position g.margin g.colGaps g.grid.cols) + g.colGaps (g.grid.cols + 1) + g.margin,
        Gaps.position g.margin g.rowGaps g.grid.rows + g.rowGaps (g.grid.rows + 1) + g.margin⟩ := by
  have hsize := g.grid.size_resolve g.margin g.constraints
  rw [colGap_constrained, rowGap_constrained] at hsize
  exact hsize

variable {g}

theorem left_resolve {pos : GridPos} (h : pos.col ≤ g.grid.cols) :
    g.resolve.1.left pos = g.colGaps pos.col := by
  have hbefore : pos.col - 1 ≤ g.grid.cols := (Nat.sub_le _ _).trans h
  have hmargin : g.resolve.1.margin = g.margin := rfl
  simp only [left, point_resolve, Nat.min_eq_left h, Nat.min_eq_left hbefore, hmargin]
  exact Gaps.gap_before g.margin g.colGaps pos.col

theorem above_resolve {pos : GridPos} (h : pos.row ≤ g.grid.rows) :
    g.resolve.1.above pos = g.rowGaps pos.row := by
  have hbefore : pos.row - 1 ≤ g.grid.rows := (Nat.sub_le _ _).trans h
  have hmargin : g.resolve.1.margin = g.margin := rfl
  simp only [above, point_resolve, Nat.min_eq_left h, Nat.min_eq_left hbefore, hmargin]
  exact Gaps.gap_before g.margin g.rowGaps pos.row

/-- The margin never takes part in the width, as no gap is negative. -/
theorem right_resolve (hgaps : ∀ i, 0 ≤ g.colGaps i) {pos : GridPos} (h : pos.col ≤ g.grid.cols) :
    g.resolve.1.right g.resolve.2 pos = g.colGaps (pos.col + 1) := by
  have hmargin : g.resolve.1.margin = g.margin := rfl
  simp only [right, point_resolve, Nat.min_eq_left h, hmargin, cols_resolve]
  split
  · rename_i hlast
    rw [size_resolve, hlast]
    dsimp only
    rw [max_eq_right (Gaps.le_position g.margin hgaps _)]
    ring
  · rename_i hlast
    have hnext : pos.col + 1 ≤ g.grid.cols := Nat.lt_of_le_of_ne h hlast
    rw [Nat.min_eq_left hnext, Gaps.position, add_sub_cancel_left]

theorem below_resolve {pos : GridPos} (h : pos.row ≤ g.grid.rows) :
    g.resolve.1.below g.resolve.2 pos = g.rowGaps (pos.row + 1) := by
  have hmargin : g.resolve.1.margin = g.margin := rfl
  simp only [below, point_resolve, Nat.min_eq_left h, hmargin, rows_resolve]
  split
  · rename_i hlast
    rw [size_resolve, hlast]
    ring
  · rename_i hlast
    have hnext : pos.row + 1 ≤ g.grid.rows := Nat.lt_of_le_of_ne h hlast
    rw [Nat.min_eq_left hnext, Gaps.position, add_sub_cancel_left]

/-- One pass over the constraints of a graphic satisfies them all, whatever their order. -/
theorem resolve_satisfied {σ : Type} [GridItem σ Rat] (g : Graphic σ Rat)
    (hgrid : ∀ c ∈ g.constraints, c.InGrid g.grid.rows g.grid.cols)
    (hwidens : ∀ c ∈ g.constraints, c.Widens) :
    Satisfied g.constraints g.resolve.1 g.resolve.2 := by
  have hcolumns : Gaps.Reach g.grid.cols g.colGaps (g.constraints.map Constraint.horizontal) :=
    Gaps.reach_run (List.forall_mem_map.mpr fun c hc => Constraint.within_horizontal (hgrid c hc))
      (List.forall_mem_map.mpr fun c hc => Constraint.widens_horizontal (hwidens c hc))
  have hrows : Gaps.Reach g.grid.rows g.rowGaps (g.constraints.map Constraint.vertical) :=
    Gaps.reach_run (List.forall_mem_map.mpr fun c hc => Constraint.within_vertical (hgrid c hc))
      (List.forall_mem_map.mpr fun c hc => Constraint.widens_vertical (hwidens c hc))
  constructor
  case floors =>
    intro pos sides hmem
    obtain ⟨hrow, hcol⟩ := hgrid _ hmem
    rw [left_resolve hcol, right_resolve hcolumns.nonneg hcol, above_resolve hrow, below_resolve hrow]
    exact ⟨hcolumns.holds _ (List.mem_map_of_mem hmem), hrows.holds _ (List.mem_map_of_mem hmem)⟩
  case spans =>
    intro start stop room hmem
    obtain ⟨⟨hstartRow, hstartCol⟩, hstopRow, hstopCol⟩ := hgrid _ hmem
    simp only [point_resolve, Nat.min_eq_left hstartRow, Nat.min_eq_left hstartCol, Nat.min_eq_left hstopRow,
      Nat.min_eq_left hstopCol]
    rw [Gaps.abs_position_sub g.margin hcolumns.nonneg, Gaps.abs_position_sub g.margin hrows.nonneg]
    exact ⟨hcolumns.holds _ (List.mem_map_of_mem hmem), hrows.holds _ (List.mem_map_of_mem hmem)⟩
  case adds =>
    intro pos hpos
    have hrow : pos.row ≤ g.grid.rows := hpos.1.trans_eq g.rows_resolve
    have hcol : pos.col ≤ g.grid.cols := hpos.2.trans_eq g.cols_resolve
    have hcolAdded := hcolumns.added
    have hrowAdded := hrows.added
    simp only [List.map_map, Function.comp_def] at hcolAdded hrowAdded
    rw [left_resolve hcol, right_resolve hcolumns.nonneg hcol, above_resolve hrow, below_resolve hrow]
    exact ⟨⟨hcolAdded _ (Nat.le_succ_of_le hcol), hcolAdded _ (Nat.succ_le_succ hcol)⟩,
      hrowAdded _ (Nat.le_succ_of_le hrow), hrowAdded _ (Nat.succ_le_succ hrow)⟩
  case columns =>
    intro row col next hle
    rw [point_resolve, point_resolve]
    exact Gaps.position_mono g.margin hcolumns.nonneg (min_le_min_right _ hle)
  case rows =>
    intro col row next hle
    rw [point_resolve, point_resolve]
    exact Gaps.position_mono g.margin hrows.nonneg (min_le_min_right _ hle)

end Resolve

structure Probe where
  constraints : List (Constraint Rat)

instance : GridItem Probe Rat where
  constraints probe _ _ _ := probe.constraints
  draw _ _ _ := []

def probeSample : Graphic Probe Rat where
  grid := .empty 2 3
  items :=
    [⟨⟨0, 0⟩, ⟨[.span ⟨0, 0⟩ ⟨2, 3⟩ ⟨90, 30⟩, .floor ⟨1, 1⟩ ⟨-5, 40, 7, 0⟩]⟩⟩,
      ⟨⟨2, 3⟩, ⟨[.add ⟨2, 3⟩ ⟨4, 6, 0, 9⟩, .add ⟨0, 3⟩ ⟨4, 0, 2, 0⟩, .span ⟨2, 2⟩ ⟨1, 0⟩ ⟨75, -1⟩,
        .span ⟨0, 1⟩ ⟨2, 1⟩ ⟨0, 50⟩, .floor ⟨2, 3⟩ ⟨0, 5, 0, 10⟩]⟩⟩]
  margin := -8
  rejected := 0

theorem resolve_satisfied_probeSample :
    (∀ c ∈ probeSample.constraints, c.InGrid 2 3) ∧ (∀ c ∈ probeSample.constraints, c.Widens) ∧
      Satisfied probeSample.constraints probeSample.resolve.1 probeSample.resolve.2 := by
  have hgrid : ∀ c ∈ probeSample.constraints, c.InGrid 2 3 := by decide +kernel
  have hwidens : ∀ c ∈ probeSample.constraints, c.Widens := by decide +kernel
  exact ⟨hgrid, hwidens, resolve_satisfied probeSample hgrid hwidens⟩

def columnSample : Graphic Probe Rat where
  grid := .empty 1 0
  items := [⟨⟨0, 0⟩, ⟨[.span ⟨0, 0⟩ ⟨1, 0⟩ ⟨10, 5⟩]⟩⟩]
  margin := 0
  rejected := 0

/-- Places of one column stay on one line, however wide a span between them is to be. -/
theorem resolve_columnSample :
    (∀ c ∈ columnSample.constraints, c.InGrid 1 0) ∧ (∀ c ∈ columnSample.constraints, c.Widens) ∧
      .span ⟨0, 0⟩ ⟨1, 0⟩ ⟨10, 5⟩ ∈ columnSample.constraints ∧
      ¬ 10 ≤ |(columnSample.resolve.1.grid.point 0 0).x - (columnSample.resolve.1.grid.point 1 0).x| := by
  have hgrid : ∀ c ∈ columnSample.constraints, c.InGrid 1 0 := by decide +kernel
  have hwidens : ∀ c ∈ columnSample.constraints, c.Widens := by decide +kernel
  have hspan : .span ⟨0, 0⟩ ⟨1, 0⟩ ⟨10, 5⟩ ∈ columnSample.constraints := by decide +kernel
  have hsame : (columnSample.resolve.1.grid.point 0 0).x = (columnSample.resolve.1.grid.point 1 0).x := by
    rw [point_resolve, point_resolve]
  refine ⟨hgrid, hwidens, hspan, ?_⟩
  rw [hsame, sub_self, abs_zero]
  norm_num

end Graphic

end SequenceChart
