import SequenceChart.Proofs.Grid.Points

/-! The two axes of a grid. Both keep their gaps in the same cells, and a span goes along one of them from a place
that has a number on the other, yet neither ever has a say in the other: runs of constraints that agree along one
axis end in grids that agree along it. -/

namespace SequenceChart

namespace Grid

variable {α : Type} [Length α]

/-- Whether two grids agree in their columns; of their rows nothing is said. -/
structure SameCols (g h : Grid α) : Prop where
  cols : g.cols = h.cols
  gaps : g.colGap = h.colGap

structure SameRows (g h : Grid α) : Prop where
  rows : g.rows = h.rows
  gaps : g.rowGap = h.rowGap

theorem sameCols_empty (rows other cols : Nat) : (empty rows cols : Grid α).SameCols (empty other cols) :=
  ⟨rfl, (colGap_empty rows cols).trans (colGap_empty other cols).symm⟩

theorem sameRows_empty (rows cols other : Nat) : (empty rows cols : Grid α).SameRows (empty rows other) :=
  ⟨rfl, (rowGap_empty rows cols).trans (rowGap_empty rows other).symm⟩

section Run

-- A span is made of floors with sides of zero, which are to leave the other axis alone.
variable (hzero : ((0.0 : α) == 0.0) = true)

include hzero

theorem SameCols.apply {g h : Grid α} (same : g.SameCols h) {c d : Constraint α} (hpart : c.horizontal = d.horizontal) :
    (g.apply c).SameCols (h.apply d) := by
  constructor
  · rw [(size_apply g c).2, (size_apply h d).2, same.cols]
  · rw [colGap_apply hzero, colGap_apply hzero, same.cols, same.gaps, hpart]

theorem SameRows.apply {g h : Grid α} (same : g.SameRows h) {c d : Constraint α} (hpart : c.vertical = d.vertical) :
    (g.apply c).SameRows (h.apply d) := by
  constructor
  · rw [(size_apply g c).1, (size_apply h d).1, same.rows]
  · rw [rowGap_apply hzero, rowGap_apply hzero, same.rows, same.gaps, hpart]

/-- Runs that agree constraint by constraint along the columns keep the columns the same. -/
theorem SameCols.foldl_apply {g h : Grid α} (same : g.SameCols h) {first second : List (Constraint α)}
    (hparts : first.map Constraint.horizontal = second.map Constraint.horizontal) :
    (first.foldl Grid.apply g).SameCols (second.foldl Grid.apply h) := by
  induction first generalizing g h second with
  | nil =>
    obtain rfl := List.map_eq_nil_iff.mp hparts.symm
    exact same
  | cons c first ih =>
    obtain ⟨d, later, rfl, hd, hlater⟩ := List.map_eq_cons_iff.mp hparts.symm
    exact ih (same.apply hzero hd.symm) hlater.symm

theorem SameRows.foldl_apply {g h : Grid α} (same : g.SameRows h) {first second : List (Constraint α)}
    (hparts : first.map Constraint.vertical = second.map Constraint.vertical) :
    (first.foldl Grid.apply g).SameRows (second.foldl Grid.apply h) := by
  induction first generalizing g h second with
  | nil =>
    obtain rfl := List.map_eq_nil_iff.mp hparts.symm
    exact same
  | cons c first ih =>
    obtain ⟨d, later, rfl, hd, hlater⟩ := List.map_eq_cons_iff.mp hparts.symm
    exact ih (same.apply hzero hd.symm) hlater.symm

end Run

/-- Whether two grids that were resolved, each with the size of its picture, show the same columns in every row. -/
structure ShowsSameCols (found other : Grid α × Size α) : Prop where
  x : ∀ row below col, (found.1.point row col).x = (other.1.point below col).x
  dx : ∀ row below col, (found.1.delta row col).dx = (other.1.delta below col).dx
  trailing : found.1.trailing.dx = other.1.trailing.dx
  width : found.2.width = other.2.width

structure ShowsSameRows (found other : Grid α × Size α) : Prop where
  y : ∀ row col beside, (found.1.point row col).y = (other.1.point row beside).y
  dy : ∀ row col beside, (found.1.delta row col).dy = (other.1.delta row beside).dy
  trailing : found.1.trailing.dy = other.1.trailing.dy
  height : found.2.height = other.2.height

theorem SameCols.resolve {g h : Grid α} {first second : List (Constraint α)} (hcols : g.cols = h.cols)
    (same : (constrained g.rows g.cols first).SameCols (constrained h.rows h.cols second)) (margin : α) :
    ShowsSameCols (g.resolve margin first) (h.resolve margin second) := by
  constructor
  · intro row below col
    rw [point_resolve, point_resolve, same.gaps, hcols]
  · intro row below col
    rw [delta_resolve, delta_resolve, same.gaps, hcols]
  · rw [trailing_resolve, trailing_resolve, same.gaps, hcols]
  · rw [size_resolve, size_resolve, same.gaps, hcols]

theorem SameRows.resolve {g h : Grid α} {first second : List (Constraint α)} (hrows : g.rows = h.rows)
    (same : (constrained g.rows g.cols first).SameRows (constrained h.rows h.cols second)) (margin : α) :
    ShowsSameRows (g.resolve margin first) (h.resolve margin second) := by
  constructor
  · intro row col beside
    rw [point_resolve, point_resolve, same.gaps, hrows]
  · intro row col beside
    rw [delta_resolve, delta_resolve, same.gaps, hrows]
  · rw [trailing_resolve, trailing_resolve, same.gaps, hrows]
  · rw [size_resolve, size_resolve, same.gaps, hrows]

/-- Two grids with the same number of columns, under constraints that agree one by one in kind and in what they ask
of the columns, come to the same positions and distances of every column, the same gap behind the last one and the
same width, whatever their rows are and whatever is asked of those. So it is for rows, whatever the columns are. -/
theorem axes_independent (hzero : ((0.0 : α) == 0.0) = true) (g h : Grid α) (margin : α)
    (first second : List (Constraint α)) :
    (g.cols = h.cols → first.map Constraint.horizontal = second.map Constraint.horizontal →
      ShowsSameCols (g.resolve margin first) (h.resolve margin second)) ∧
    (g.rows = h.rows → first.map Constraint.vertical = second.map Constraint.vertical →
      ShowsSameRows (g.resolve margin first) (h.resolve margin second)) := by
  constructor
  · intro hcols hparts
    have hempty : (empty g.rows g.cols : Grid α).SameCols (empty h.rows h.cols) := by
      rw [hcols]
      exact sameCols_empty g.rows h.rows h.cols
    exact (hempty.foldl_apply hzero hparts).resolve hcols margin
  · intro hrows hparts
    have hempty : (empty g.rows g.cols : Grid α).SameRows (empty h.rows h.cols) := by
      rw [hrows]
      exact sameRows_empty h.rows g.cols h.cols
    exact (hempty.foldl_apply hzero hparts).resolve hrows margin

def flatSample : List (Constraint Float) :=
  [.floor ⟨0, 1⟩ ⟨4.5, 2.0, 0.0, 1.0⟩, .add ⟨1, 5⟩ ⟨0.1, 0.2, 3.0, 0.0⟩, .span ⟨1, 2⟩ ⟨0, 0⟩ ⟨30.0, 1.0⟩]

def steepSample : List (Constraint Float) :=
  [.floor ⟨7, 1⟩ ⟨4.5, 2.0, 9.0, 0.0⟩, .add ⟨3, 5⟩ ⟨0.1, 0.2, 0.0, 8.0⟩, .span ⟨4, 2⟩ ⟨9, 0⟩ ⟨30.0, 70.5⟩]

def wideSample : List (Constraint Float) :=
  [.floor ⟨0, 6⟩ ⟨0.0, 60.0, 0.0, 1.0⟩, .add ⟨1, 0⟩ ⟨7.5, 0.0, 3.0, 0.0⟩, .span ⟨1, 3⟩ ⟨0, 8⟩ ⟨2.5, 1.0⟩]

theorem axes_independent_steepSample :
    ((0.0 : Float) == 0.0) = true ∧
    (flatSample.map Constraint.horizontal = steepSample.map Constraint.horizontal ∧
      ShowsSameCols ((empty 1 2).resolve 10.0 flatSample) ((empty 9 2).resolve 10.0 steepSample)) ∧
    flatSample.map Constraint.vertical = wideSample.map Constraint.vertical ∧
      ShowsSameRows ((empty 1 2).resolve 10.0 flatSample) ((empty 1 6).resolve 10.0 wideSample) :=
  ⟨by decide,
    ⟨rfl, (axes_independent (by decide) (empty 1 2) (empty 9 2) 10.0 flatSample steepSample).1 rfl rfl⟩,
    rfl, (axes_independent (by decide) (empty 1 2) (empty 1 6) 10.0 flatSample wideSample).2 rfl rfl⟩

end Grid

end SequenceChart
