import SequenceChart.Grid.Basic

/-! Gaps as functions. A grid packs the gaps of both axes into the cells of one row and one column; read by
their numbers, the gaps of an axis change as if they were alone, whatever the type of lengths. -/

namespace SequenceChart

variable {α : Type}

inductive AxisConstraint (α : Type) where
  | floor (place : Nat) (before after : α)
  | add (place : Nat) (before after : α)
  | span (start stop : Nat) (length : α)

namespace Constraint

def horizontal : Constraint α → AxisConstraint α
  | floor pos sides => .floor pos.col sides.left sides.right
  | add pos sides => .add pos.col sides.left sides.right
  | span start stop size => .span start.col stop.col size.width

def vertical : Constraint α → AxisConstraint α
  | floor pos sides => .floor pos.row sides.top sides.bottom
  | add pos sides => .add pos.row sides.top sides.bottom
  | span start stop size => .span start.row stop.row size.height

end Constraint

/-- The gaps of an axis by the number of the column, or the row, that they stand before. -/
abbrev Gaps (α : Type) := Nat → α

namespace Gaps

/-- Whether two numbers stand for the same gap; all those past the last one stand for the trailing gap. -/
abbrev Same (last i j : Nat) : Prop := min i (last + 1) = min j (last + 1)

def modify (last : Nat) (gaps : Gaps α) (i : Nat) (f : α → α) : Gaps α := fun j =>
  if Same last i j then f (gaps j) else gaps j

variable [Length α]

def sides (last : Nat) (op : α → α → α) (gaps : Gaps α) (place : Nat) (before after : α) : Gaps α :=
  let gaps := if before == 0.0 then gaps else gaps.modify last place (op · before)
  if after == 0.0 then gaps else gaps.modify last (Grid.behind last place) (op · after)

def spread (last : Nat) (gaps : Gaps α) (between : List Nat) (length : α) : Gaps α :=
  match Grid.share? (between.map gaps) length with
  | none => gaps
  | some share => between.foldl (fun gaps i => gaps.sides last max i (gaps i + share) 0.0) gaps

def apply (last : Nat) (gaps : Gaps α) : AxisConstraint α → Gaps α
  | .floor place before after => gaps.sides last max place before after
  | .add place before after => gaps.sides last (· + ·) place before after
  | .span start stop length => gaps.spread last (Grid.between start stop) length

def run (last : Nat) (gaps : Gaps α) (constraints : List (AxisConstraint α)) : Gaps α :=
  constraints.foldl (apply last) gaps

end Gaps

namespace Grid

def Slot.Fits (g : Grid α) : Slot → Prop
  | .cell i => i < g.cells.size
  | .trailing => True

theorem fits_colSlot (g : Grid α) (col : Nat) : Slot.Fits g (g.colSlot col) := by
  unfold colSlot
  split
  · trivial
  · exact index_lt_size (Nat.zero_le _) (Nat.not_lt.mp ‹_›)

theorem fits_rowSlot (g : Grid α) (row : Nat) : Slot.Fits g (g.rowSlot row) := by
  unfold rowSlot
  split
  · trivial
  · exact index_lt_size (Nat.not_lt.mp ‹_›) (Nat.zero_le _)

theorem colSlot_eq_iff (g : Grid α) (i j : Nat) :
    g.colSlot i = g.colSlot j ↔ Gaps.Same g.cols i j := by
  unfold colSlot index
  split <;> split <;> simp <;> omega

theorem rowSlot_eq_iff (g : Grid α) (i j : Nat) :
    g.rowSlot i = g.rowSlot j ↔ Gaps.Same g.rows i j := by
  have hindex : i * (g.cols + 1) + 0 = j * (g.cols + 1) + 0 ↔ i = j :=
    Nat.mul_left_inj (Nat.succ_ne_zero g.cols)
  unfold rowSlot index
  split <;> split <;> simp only [hindex, Slot.cell.injEq, reduceCtorEq, true_iff, false_iff] <;> omega

@[simp] theorem colSlot_update (g : Grid α) (slot : Slot) (f : Delta α → Delta α) :
    (g.update slot f).colSlot = g.colSlot := by
  funext col
  simp only [colSlot, index, cols_update]

@[simp] theorem rowSlot_update (g : Grid α) (slot : Slot) (f : Delta α → Delta α) :
    (g.update slot f).rowSlot = g.rowSlot := by
  funext row
  simp only [rowSlot, index, cols_update, rows_update]

variable [Length α]

/-- An update changes what is read at its own slot and nothing else. -/
theorem read_update (g : Grid α) {slot : Slot} (h : Slot.Fits g slot) (f : Delta α → Delta α) (other : Slot) :
    (g.update slot f).read other = if slot = other then f (g.read other) else g.read other := by
  cases slot with
  | trailing => cases other <;> rfl
  | cell i =>
    cases other with
    | trailing => rfl
    | cell j =>
      simp only [update, read, Array.getD_eq_getD_getElem?, Array.getElem?_modify, Slot.cell.injEq]
      by_cases hij : i = j
      · subst hij
        have hget := Array.getElem?_eq_getElem (show i < g.cells.size from h)
        simp only [hget, if_true, Option.map_some, Option.getD_some]
      · simp only [if_neg hij]

theorem colGap_updateCol (g : Grid α) (i : Nat) (f : α → α) :
    (g.updateCol i f).colGap = Gaps.modify g.cols g.colGap i f := by
  funext j
  unfold updateCol colGap Gaps.modify
  rw [colSlot_update, read_update g (fits_colSlot g i)]
  simp only [colSlot_eq_iff]
  split <;> rfl

theorem rowGap_updateRow (g : Grid α) (i : Nat) (f : α → α) :
    (g.updateRow i f).rowGap = Gaps.modify g.rows g.rowGap i f := by
  funext j
  unfold updateRow rowGap Gaps.modify
  rw [rowSlot_update, read_update g (fits_rowSlot g i)]
  simp only [rowSlot_eq_iff]
  split <;> rfl

theorem colGap_updateRow (g : Grid α) (i : Nat) (f : α → α) : (g.updateRow i f).colGap = g.colGap := by
  funext j
  unfold updateRow colGap
  rw [colSlot_update, read_update g (fits_rowSlot g i)]
  split <;> rfl

theorem rowGap_updateCol (g : Grid α) (i : Nat) (f : α → α) : (g.updateCol i f).rowGap = g.rowGap := by
  funext j
  unfold updateCol rowGap
  rw [rowSlot_update, read_update g (fits_colSlot g i)]
  split <;> rfl

omit [Length α] in
@[simp] theorem rows_updateCol (g : Grid α) (i : Nat) (f : α → α) : (g.updateCol i f).rows = g.rows :=
  rows_update ..

omit [Length α] in
@[simp] theorem cols_updateCol (g : Grid α) (i : Nat) (f : α → α) : (g.updateCol i f).cols = g.cols :=
  cols_update ..

omit [Length α] in
@[simp] theorem rows_updateRow (g : Grid α) (i : Nat) (f : α → α) : (g.updateRow i f).rows = g.rows :=
  rows_update ..

omit [Length α] in
@[simp] theorem cols_updateRow (g : Grid α) (i : Nat) (f : α → α) : (g.updateRow i f).cols = g.cols :=
  cols_update ..

theorem size_updateSides (g : Grid α) (op : α → α → α) (pos : GridPos) (sides : Sides α) :
    (g.updateSides op pos sides).rows = g.rows ∧ (g.updateSides op pos sides).cols = g.cols := by
  unfold updateSides
  dsimp only
  split <;> split <;> split <;> split <;> simp

theorem colGap_updateSides (g : Grid α) (op : α → α → α) (pos : GridPos) (sides : Sides α) :
    (g.updateSides op pos sides).colGap = Gaps.sides g.cols op g.colGap pos.col sides.left sides.right := by
  unfold updateSides Gaps.sides
  dsimp only
  split <;> split <;> split <;> split <;>
    simp only [colGap_updateRow, colGap_updateCol, cols_updateCol]

theorem rowGap_updateSides (g : Grid α) (op : α → α → α) (pos : GridPos) (sides : Sides α) :
    (g.updateSides op pos sides).rowGap = Gaps.sides g.rows op g.rowGap pos.row sides.top sides.bottom := by
  unfold updateSides Gaps.sides
  dsimp only
  split <;> split <;> split <;> split <;>
    simp only [rowGap_updateCol, rowGap_updateRow, rows_updateCol, rows_updateRow]

theorem size_foldl_floor (pos : Nat → GridPos) (sides : Grid α → Nat → Sides α) (numbers : List Nat)
    (g : Grid α) :
    (numbers.foldl (fun g i => g.floor (pos i) (sides g i)) g).rows = g.rows ∧
      (numbers.foldl (fun g i => g.floor (pos i) (sides g i)) g).cols = g.cols := by
  induction numbers generalizing g with
  | nil => exact ⟨rfl, rfl⟩
  | cons i later ih =>
    have hfirst := size_updateSides g max (pos i) (sides g i)
    have hlater := ih (g.floor (pos i) (sides g i))
    exact ⟨hlater.1.trans hfirst.1, hlater.2.trans hfirst.2⟩

theorem size_spanCols (g : Grid α) (start stop : GridPos) (width : α) :
    (g.spanCols start stop width).rows = g.rows ∧ (g.spanCols start stop width).cols = g.cols := by
  unfold spanCols
  dsimp only
  split
  · exact ⟨rfl, rfl⟩
  · exact size_foldl_floor _ _ _ g

theorem size_spanRows (g : Grid α) (start stop : GridPos) (height : α) :
    (g.spanRows start stop height).rows = g.rows ∧ (g.spanRows start stop height).cols = g.cols := by
  unfold spanRows
  dsimp only
  split
  · exact ⟨rfl, rfl⟩
  · exact size_foldl_floor _ _ _ g

theorem size_apply (g : Grid α) (c : Constraint α) :
    (g.apply c).rows = g.rows ∧ (g.apply c).cols = g.cols := by
  cases c with
  | floor pos sides => exact size_updateSides ..
  | add pos sides => exact size_updateSides ..
  | span start stop size =>
    have hcols := size_spanCols g start stop size.width
    have hrows := size_spanRows (g.spanCols start stop size.width) start stop size.height
    exact ⟨hrows.1.trans hcols.1, hrows.2.trans hcols.2⟩

theorem colGap_foldl_floor (row : Nat) (share : α) (cols : List Nat) (g : Grid α) :
    (cols.foldl (fun g col => g.floor ⟨row, col⟩ (.horizontal (g.colGap col + share) 0.0)) g).colGap =
      cols.foldl (fun gaps i => Gaps.sides g.cols max gaps i (gaps i + share) 0.0) g.colGap := by
  induction cols generalizing g with
  | nil => rfl
  | cons col later ih =>
    rw [List.foldl_cons, List.foldl_cons, ih, floor, (size_updateSides ..).2, colGap_updateSides]
    rfl

theorem rowGap_foldl_floor (col : Nat) (share : α) (rows : List Nat) (g : Grid α) :
    (rows.foldl (fun g row => g.floor ⟨row, col⟩ (.vertical (g.rowGap row + share) 0.0)) g).rowGap =
      rows.foldl (fun gaps i => Gaps.sides g.rows max gaps i (gaps i + share) 0.0) g.rowGap := by
  induction rows generalizing g with
  | nil => rfl
  | cons row later ih =>
    rw [List.foldl_cons, List.foldl_cons, ih, floor, (size_updateSides ..).1, rowGap_updateSides]
    rfl

theorem colGap_spanCols (g : Grid α) (start stop : GridPos) (width : α) :
    (g.spanCols start stop width).colGap =
      Gaps.spread g.cols g.colGap (between start.col stop.col) width := by
  unfold spanCols Gaps.spread
  dsimp only
  cases share? ((between start.col stop.col).map g.colGap) width with
  | none => rfl
  | some share => exact colGap_foldl_floor start.row share _ g

theorem rowGap_spanRows (g : Grid α) (start stop : GridPos) (height : α) :
    (g.spanRows start stop height).rowGap =
      Gaps.spread g.rows g.rowGap (between start.row stop.row) height := by
  unfold spanRows Gaps.spread
  dsimp only
  cases share? ((between start.row stop.row).map g.rowGap) height with
  | none => rfl
  | some share => exact rowGap_foldl_floor start.col share _ g

section Zero

variable (hzero : ((0.0 : α) == 0.0) = true)

include hzero

theorem sides_zero (last : Nat) (op : α → α → α) (gaps : Gaps α) (place : Nat) :
    Gaps.sides last op gaps place 0.0 0.0 = gaps := by
  unfold Gaps.sides
  simp only [hzero, if_true]

theorem rowGap_foldl_horizontal (pos : Nat → GridPos) (left : Grid α → Nat → α) (numbers : List Nat)
    (g : Grid α) :
    (numbers.foldl (fun g i => g.floor (pos i) (.horizontal (left g i) 0.0)) g).rowGap = g.rowGap := by
  induction numbers generalizing g with
  | nil => rfl
  | cons i later ih =>
    rw [List.foldl_cons, ih, floor, rowGap_updateSides]
    exact sides_zero hzero _ _ _ _

theorem colGap_foldl_vertical (pos : Nat → GridPos) (top : Grid α → Nat → α) (numbers : List Nat)
    (g : Grid α) :
    (numbers.foldl (fun g i => g.floor (pos i) (.vertical (top g i) 0.0)) g).colGap = g.colGap := by
  induction numbers generalizing g with
  | nil => rfl
  | cons i later ih =>
    rw [List.foldl_cons, ih, floor, colGap_updateSides]
    exact sides_zero hzero _ _ _ _

theorem rowGap_spanCols (g : Grid α) (start stop : GridPos) (width : α) :
    (g.spanCols start stop width).rowGap = g.rowGap := by
  unfold spanCols
  dsimp only
  split
  · rfl
  · exact rowGap_foldl_horizontal hzero _ _ _ g

theorem colGap_spanRows (g : Grid α) (start stop : GridPos) (height : α) :
    (g.spanRows start stop height).colGap = g.colGap := by
  unfold spanRows
  dsimp only
  split
  · rfl
  · exact colGap_foldl_vertical hzero _ _ _ g

theorem colGap_apply (g : Grid α) (c : Constraint α) :
    (g.apply c).colGap = Gaps.apply g.cols g.colGap c.horizontal := by
  cases c with
  | floor pos sides => exact colGap_updateSides ..
  | add pos sides => exact colGap_updateSides ..
  | span start stop size =>
    rw [apply, colGap_spanRows hzero, colGap_spanCols]
    rfl

theorem rowGap_apply (g : Grid α) (c : Constraint α) :
    (g.apply c).rowGap = Gaps.apply g.rows g.rowGap c.vertical := by
  cases c with
  | floor pos sides => exact rowGap_updateSides ..
  | add pos sides => exact rowGap_updateSides ..
  | span start stop size =>
    rw [apply, rowGap_spanRows, rowGap_spanCols hzero, (size_spanCols ..).1]
    rfl

theorem colGap_foldl_apply (g : Grid α) (constraints : List (Constraint α)) :
    (constraints.foldl apply g).colGap =
      Gaps.run g.cols g.colGap (constraints.map Constraint.horizontal) := by
  induction constraints generalizing g with
  | nil => rfl
  | cons c later ih =>
    rw [List.foldl_cons, ih, (size_apply ..).2, colGap_apply hzero]
    rfl

theorem rowGap_foldl_apply (g : Grid α) (constraints : List (Constraint α)) :
    (constraints.foldl apply g).rowGap =
      Gaps.run g.rows g.rowGap (constraints.map Constraint.vertical) := by
  induction constraints generalizing g with
  | nil => rfl
  | cons c later ih =>
    rw [List.foldl_cons, ih, (size_apply ..).1, rowGap_apply hzero]
    rfl

end Zero

theorem size_foldl_apply (g : Grid α) (constraints : List (Constraint α)) :
    (constraints.foldl apply g).rows = g.rows ∧ (constraints.foldl apply g).cols = g.cols := by
  induction constraints generalizing g with
  | nil => exact ⟨rfl, rfl⟩
  | cons c later ih =>
    have hfirst := size_apply g c
    have hlater := ih (g.apply c)
    exact ⟨hlater.1.trans hfirst.1, hlater.2.trans hfirst.2⟩

theorem colGap_empty (rows cols : Nat) : (empty rows cols : Grid α).colGap = fun _ => 0.0 := by
  funext col
  unfold colGap colSlot
  split
  · rfl
  · simp only [read, empty, Array.getD_eq_getD_getElem?, Array.getElem?_replicate]
    split <;> rfl

theorem rowGap_empty (rows cols : Nat) : (empty rows cols : Grid α).rowGap = fun _ => 0.0 := by
  funext row
  unfold rowGap rowSlot
  split
  · rfl
  · simp only [read, empty, Array.getD_eq_getD_getElem?, Array.getElem?_replicate]
    split <;> rfl

end Grid

end SequenceChart
