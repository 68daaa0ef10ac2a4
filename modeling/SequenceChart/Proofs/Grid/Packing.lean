import SequenceChart.Proofs.Grid.Points

/-! The packing of gaps. While constraints are applied, the gaps of both axes lie in the cells of one row and one column
and behind the edges. Whatever the constraints are, no cell outside of the grid is used, no gap is written into the
place of another one, and all other cells stay as they were. -/

namespace SequenceChart.Grid

variable {α : Type} [Length α]

section Checked

/-! The steps of a run with a look at every index before its cell is used: without a cell there is no next step. -/

end Checked

/-- One grid comes from another by a change of the gaps of some columns and some rows: its size, all points and all
other distances are the same. A distance is the gap of a column only in row 0, that of a row only in column 0, and
behind the edge it is the gap of every number there. -/
structure ChangesOnly (cols rows : Nat → Prop) (g made : Grid α) : Prop where
  rows_eq : made.rows = g.rows
  cols_eq : made.cols = g.cols
  point : ∀ row ≤ g.rows, ∀ col ≤ g.cols, (made.cell row col).point = (g.cell row col).point
  dx : ∀ row ≤ g.rows, ∀ col ≤ g.cols, ¬ (row = 0 ∧ cols col) →
    (made.cell row col).delta.dx = (g.cell row col).delta.dx
  dy : ∀ row ≤ g.rows, ∀ col ≤ g.cols, ¬ (col = 0 ∧ rows row) →
    (made.cell row col).delta.dy = (g.cell row col).delta.dy
  trailing_dx : (∀ col, cols col → col ≤ g.cols) → made.trailing.dx = g.trailing.dx
  trailing_dy : (∀ row, rows row → row ≤ g.rows) → made.trailing.dy = g.trailing.dy

namespace ChangesOnly

variable {cols rows : Nat → Prop} {g made later : Grid α}

theorem refl (cols rows : Nat → Prop) (g : Grid α) : ChangesOnly cols rows g g :=
  ⟨rfl, rfl, fun _ _ _ _ => rfl, fun _ _ _ _ _ => rfl, fun _ _ _ _ _ => rfl, fun _ => rfl, fun _ => rfl⟩

theorem trans (h : ChangesOnly cols rows g made) (hlater : ChangesOnly cols rows made later) :
    ChangesOnly cols rows g later := by
  obtain ⟨hrows, hcols, hpoint, hdx, hdy, htrailingdx, htrailingdy⟩ := hlater
  rw [h.rows_eq, h.cols_eq] at hpoint hdx hdy
  rw [h.cols_eq] at htrailingdx
  rw [h.rows_eq] at htrailingdy
  exact {
    rows_eq := hrows.trans h.rows_eq
    cols_eq := hcols.trans h.cols_eq
    point := fun row hrow col hcol => (hpoint row hrow col hcol).trans (h.point row hrow col hcol)
    dx := fun row hrow col hcol hother => (hdx row hrow col hcol hother).trans (h.dx row hrow col hcol hother)
    dy := fun row hrow col hcol hother => (hdy row hrow col hcol hother).trans (h.dy row hrow col hcol hother)
    trailing_dx := fun hinside => (htrailingdx hinside).trans (h.trailing_dx hinside)
    trailing_dy := fun hinside => (htrailingdy hinside).trans (h.trailing_dy hinside) }

theorem update_trailing (g : Grid α) {f : Delta α → Delta α}
    (hdx : (∃ col, cols col ∧ g.cols < col) ∨ ∀ d, (f d).dx = d.dx)
    (hdy : (∃ row, rows row ∧ g.rows < row) ∨ ∀ d, (f d).dy = d.dy) :
    ChangesOnly cols rows g (g.update .trailing f) := by
  refine ⟨rfl, rfl, fun _ _ _ _ => rfl, fun _ _ _ _ _ => rfl, fun _ _ _ _ _ => rfl, fun hinside => ?_, fun hinside => ?_⟩
  · obtain ⟨col, hcol, hpast⟩ | hsame := hdx
    · exact absurd (hinside col hcol) (Nat.not_le.mpr hpast)
    · exact hsame g.trailing
  · obtain ⟨row, hrow, hpast⟩ | hsame := hdy
    · exact absurd (hinside row hrow) (Nat.not_le.mpr hpast)
    · exact hsame g.trailing

theorem update_cell (g : Grid α) {row col : Nat} (hcol : col ≤ g.cols) {f : Delta α → Delta α}
    (hdx : (row = 0 ∧ cols col) ∨ ∀ d, (f d).dx = d.dx) (hdy : (col = 0 ∧ rows row) ∨ ∀ d, (f d).dy = d.dy) :
    ChangesOnly cols rows g (g.update (.cell (g.index row col)) f) := by
  have hcell : ∀ r ≤ g.rows, ∀ c ≤ g.cols, (g.update (.cell (g.index row col)) f).cell r c =
      if row = r ∧ col = c then ⟨(g.cell r c).point, f (g.cell r c).delta⟩ else g.cell r c :=
    fun r hr c hc => ((Swept.refl g).update hcol f).cell hr hc
  refine ⟨rfl, rfl, fun r hr c hc => ?_, fun r hr c hc hother => ?_, fun r hr c hc hother => ?_, fun _ => rfl,
    fun _ => rfl⟩
  · rw [hcell r hr c hc]
    split <;> rfl
  · rw [hcell r hr c hc]
    split <;> rename_i hhere
    · obtain ⟨rfl, rfl⟩ := hhere
      exact hdx.resolve_left hother _
    · rfl
  · rw [hcell r hr c hc]
    split <;> rename_i hhere
    · obtain ⟨rfl, rfl⟩ := hhere
      exact hdy.resolve_left hother _
    · rfl

theorem updateCol (g : Grid α) {col : Nat} (h : cols col) (f : α → α) :
    ChangesOnly cols rows g (g.updateCol col f) := by
  unfold Grid.updateCol colSlot
  split <;> rename_i hpast
  · exact update_trailing g (.inl ⟨col, h, hpast⟩) (.inr fun _ => rfl)
  · exact update_cell g (Nat.not_lt.mp hpast) (.inl ⟨rfl, h⟩) (.inr fun _ => rfl)

theorem updateRow (g : Grid α) {row : Nat} (h : rows row) (f : α → α) :
    ChangesOnly cols rows g (g.updateRow row f) := by
  unfold Grid.updateRow rowSlot
  split <;> rename_i hpast
  · exact update_trailing g (.inr fun _ => rfl) (.inl ⟨row, h, hpast⟩)
  · exact update_cell g (Nat.zero_le _) (.inr fun _ => rfl) (.inl ⟨rfl, h⟩)

theorem skip (h : ChangesOnly cols rows g made) (skipped : Bool) :
    ChangesOnly cols rows g (if skipped then g else made) := by
  split
  · exact refl cols rows g
  · exact h

theorem updateSides (g : Grid α) (op : α → α → α) {pos : GridPos} (sides : Sides α) (hcol : cols pos.col)
    (hright : cols (behind g.cols pos.col)) (hrow : rows pos.row) (hbelow : rows (behind g.rows pos.row)) :
    ChangesOnly cols rows g (g.updateSides op pos sides) :=
  ((((updateCol g hcol _).skip _).trans ((updateCol _ hright _).skip _)).trans
    ((updateRow _ hrow _).skip _)).trans ((updateRow _ hbelow _).skip _)

section All

variable (hcols : ∀ col, cols col) (hrows : ∀ row, rows row)

include hcols hrows

theorem foldl_floor (pos : Nat → GridPos) (sides : Grid α → Nat → Sides α) (numbers : List Nat) (g : Grid α) :
    ChangesOnly cols rows g (numbers.foldl (fun g i => g.floor (pos i) (sides g i)) g) := by
  induction numbers generalizing g with
  | nil => exact refl cols rows g
  | cons i later ih => exact (updateSides g max (sides g i) (hcols _) (hcols _) (hrows _) (hrows _)).trans (ih _)

theorem spanCols (g : Grid α) (start stop : GridPos) (width : α) :
    ChangesOnly cols rows g (g.spanCols start stop width) := by
  unfold Grid.spanCols
  dsimp only
  split
  · exact refl cols rows g
  · exact foldl_floor hcols hrows _ _ _ g

theorem spanRows (g : Grid α) (start stop : GridPos) (height : α) :
    ChangesOnly cols rows g (g.spanRows start stop height) := by
  unfold Grid.spanRows
  dsimp only
  split
  · exact refl cols rows g
  · exact foldl_floor hcols hrows _ _ _ g

theorem apply (g : Grid α) (c : Constraint α) : ChangesOnly cols rows g (g.apply c) := by
  cases c with
  | floor pos sides => exact updateSides g max sides (hcols _) (hcols _) (hrows _) (hrows _)
  | add pos sides => exact updateSides g (· + ·) sides (hcols _) (hcols _) (hrows _) (hrows _)
  | span start stop size =>
    exact (spanCols hcols hrows g start stop size.width).trans (spanRows hcols hrows _ start stop size.height)

end All

end ChangesOnly

/-- Gaps lie in row 0 and in column 0 only, and no cell has a point yet. -/
structure Packed (g : Grid α) : Prop where
  dx : ∀ row ≤ g.rows, ∀ col ≤ g.cols, row ≠ 0 → (g.cell row col).delta.dx = 0.0
  dy : ∀ row ≤ g.rows, ∀ col ≤ g.cols, col ≠ 0 → (g.cell row col).delta.dy = 0.0
  point : ∀ row ≤ g.rows, ∀ col ≤ g.cols, (g.cell row col).point = .origin

theorem Packed.of_changesOnly {cols rows : Nat → Prop} {g made : Grid α} (h : g.Packed)
    (hchanges : ChangesOnly cols rows g made) : made.Packed := by
  constructor
  · intro row hrow col hcol hne
    rw [hchanges.rows_eq] at hrow
    rw [hchanges.cols_eq] at hcol
    rw [hchanges.dx row hrow col hcol fun hgap => hne hgap.1, h.dx row hrow col hcol hne]
  · intro row hrow col hcol hne
    rw [hchanges.rows_eq] at hrow
    rw [hchanges.cols_eq] at hcol
    rw [hchanges.dy row hrow col hcol fun hgap => hne hgap.1, h.dy row hrow col hcol hne]
  · intro row hrow col hcol
    rw [hchanges.rows_eq] at hrow
    rw [hchanges.cols_eq] at hcol
    rw [hchanges.point row hrow col hcol, h.point row hrow col hcol]

theorem Packed.foldl_apply {g : Grid α} (h : g.Packed) (constraints : List (Constraint α)) :
    (constraints.foldl apply g).Packed := by
  induction constraints generalizing g with
  | nil => exact h
  | cons c later ih => exact ih (h.of_changesOnly (ChangesOnly.apply (fun _ => trivial) (fun _ => trivial) g c))

/-- Past the edge both sides of a place are the trailing gap. -/
example : ((empty 1 1 : Grid Rat).apply (.add ⟨0, 5⟩ ⟨1, 2, 0, 0⟩)).trailing = ⟨3, 0⟩ := by decide +kernel

/-- Behind the last word of all is the first column. -/
example : (((empty 1 1 : Grid Rat).apply (.add ⟨0, 2 ^ 64 - 1⟩ ⟨1, 2, 0, 0⟩)).trailing,
    ((empty 1 1 : Grid Rat).apply (.add ⟨0, 2 ^ 64 - 1⟩ ⟨1, 2, 0, 0⟩)).colGap 0) = (⟨1, 0⟩, 2) := by decide +kernel

end SequenceChart.Grid
