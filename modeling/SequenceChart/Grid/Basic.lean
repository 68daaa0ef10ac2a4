import SequenceChart.Grid.Constraint

/-! Grids of points. Each cell knows its distance from the column and the row before it and, once it is
placed, its point. While constraints are applied the gaps between columns are kept in row 0 and the gaps
between rows in column 0; the gap after the last column or row is kept apart. -/

namespace SequenceChart

structure Delta (α : Type) where
  dx : α
  dy : α
deriving DecidableEq, Repr

structure Cell (α : Type) where
  point : Point α
  delta : Delta α
deriving DecidableEq, Repr

/-- A grid whose last row is `rows` and whose last column is `cols`, so that row 0 and column 0 are
always there. Cells are stored row by row. -/
structure Grid (α : Type) where
  rows : Nat
  cols : Nat
  cells : Array (Cell α)
  trailing : Delta α
  size_cells : cells.size = (rows + 1) * (cols + 1)

inductive Slot where
  | cell (index : Nat)
  | trailing
deriving DecidableEq, Repr

variable {α : Type}

def Delta.zero [Length α] : Delta α := ⟨0.0, 0.0⟩

def Cell.zero [Length α] : Cell α := ⟨.origin, .zero⟩

namespace Grid

def Contains (g : Grid α) (pos : GridPos) : Prop := pos.row ≤ g.rows ∧ pos.col ≤ g.cols

instance (g : Grid α) (pos : GridPos) : Decidable (g.Contains pos) :=
  inferInstanceAs (Decidable (pos.row ≤ g.rows ∧ pos.col ≤ g.cols))

def index (g : Grid α) (row col : Nat) : Nat := row * (g.cols + 1) + col

theorem index_lt_size {g : Grid α} {row col : Nat} (hrow : row ≤ g.rows) (hcol : col ≤ g.cols) :
    g.index row col < g.cells.size := by
  rw [g.size_cells, index]
  have hlast : (row + 1) * (g.cols + 1) ≤ (g.rows + 1) * (g.cols + 1) :=
    Nat.mul_le_mul_right _ (Nat.succ_le_succ hrow)
  rw [Nat.succ_mul row] at hlast
  omega

variable [Length α]

def empty (rows cols : Nat) : Grid α where
  rows := rows
  cols := cols
  cells := Array.replicate ((rows + 1) * (cols + 1)) .zero
  trailing := .zero
  size_cells := Array.size_replicate

def cell (g : Grid α) (row col : Nat) : Cell α := g.cells.getD (g.index row col) .zero

/-- The point of a cell; rows and columns past the last one count as the last. -/
def point (g : Grid α) (row col : Nat) : Point α := (g.cell (min row g.rows) (min col g.cols)).point

def delta (g : Grid α) (row col : Nat) : Delta α := (g.cell (min row g.rows) (min col g.cols)).delta

/-- Where the gap before a column is stored; every column past the last one has the trailing gap. -/
def colSlot (g : Grid α) (col : Nat) : Slot := if g.cols < col then .trailing else .cell (g.index 0 col)

def rowSlot (g : Grid α) (row : Nat) : Slot := if g.rows < row then .trailing else .cell (g.index row 0)

def read (g : Grid α) : Slot → Delta α
  | .trailing => g.trailing
  | .cell i => (g.cells.getD i .zero).delta

def update (g : Grid α) (slot : Slot) (f : Delta α → Delta α) : Grid α :=
  match slot with
  | .trailing => { g with trailing := f g.trailing }
  | .cell i =>
    { g with
      cells := g.cells.modify i fun c => { c with delta := f c.delta }
      size_cells := Array.size_modify.trans g.size_cells }

omit [Length α] in
@[simp] theorem rows_update (g : Grid α) (slot : Slot) (f : Delta α → Delta α) :
    (g.update slot f).rows = g.rows := by
  cases slot <;> rfl

omit [Length α] in
@[simp] theorem cols_update (g : Grid α) (slot : Slot) (f : Delta α → Delta α) :
    (g.update slot f).cols = g.cols := by
  cases slot <;> rfl

def colGap (g : Grid α) (col : Nat) : α := (g.read (g.colSlot col)).dx

def rowGap (g : Grid α) (row : Nat) : α := (g.read (g.rowSlot row)).dy

def updateCol (g : Grid α) (col : Nat) (f : α → α) : Grid α :=
  g.update (g.colSlot col) fun d => { d with dx := f d.dx }

def updateRow (g : Grid α) (row : Nat) (f : α → α) : Grid α :=
  g.update (g.rowSlot row) fun d => { d with dy := f d.dy }

/-- Numbers of rows and columns are words of a machine. -/
def wordCount : Nat := 1 <<< 64

/-- The number behind one on an axis. An axis is never as long as there are words, but past its edge any word may be
asked for, and behind the last word is the first again. -/
def behind (last i : Nat) : Nat := if i ≤ last then i + 1 else (i + 1) % wordCount

theorem behind_of_le {last i : Nat} (h : i ≤ last) : behind last i = i + 1 := if_pos h

/-- Combines the gaps around a place with the sides there; a side of zero leaves its gap alone. -/
def updateSides (g : Grid α) (op : α → α → α) (pos : GridPos) (sides : Sides α) : Grid α :=
  let right := behind g.cols pos.col
  let below := behind g.rows pos.row
  let g := if sides.left == 0.0 then g else g.updateCol pos.col (op · sides.left)
  let g := if sides.right == 0.0 then g else g.updateCol right (op · sides.right)
  let g := if sides.top == 0.0 then g else g.updateRow pos.row (op · sides.top)
  if sides.bottom == 0.0 then g else g.updateRow below (op · sides.bottom)

def floor (g : Grid α) (pos : GridPos) (sides : Sides α) : Grid α := g.updateSides max pos sides

def add (g : Grid α) (pos : GridPos) (sides : Sides α) : Grid α := g.updateSides (· + ·) pos sides

def between (a b : Nat) : List Nat := List.range' (min a b + 1) (max a b - min a b)

/-- What each of some gaps has to grow by so that together they reach a length, if they do not. -/
def share? (gaps : List α) (length : α) : Option α :=
  let sum := gaps.foldl (· + ·) 0.0
  if gaps ≠ [] ∧ sum < length then some ((length - sum) / (gaps.length : α)) else none

def spanCols (g : Grid α) (start stop : GridPos) (width : α) : Grid α :=
  let cols := between start.col stop.col
  match share? (cols.map g.colGap) width with
  | none => g
  | some share =>
    cols.foldl (fun g col => g.floor ⟨start.row, col⟩ (.horizontal (g.colGap col + share) 0.0)) g

def spanRows (g : Grid α) (start stop : GridPos) (height : α) : Grid α :=
  let rows := between start.row stop.row
  match share? (rows.map g.rowGap) height with
  | none => g
  | some share =>
    rows.foldl (fun g row => g.floor ⟨row, start.col⟩ (.vertical (g.rowGap row + share) 0.0)) g

def apply (g : Grid α) : Constraint α → Grid α
  | .floor pos sides => g.floor pos sides
  | .add pos sides => g.add pos sides
  | .span start stop size => (g.spanCols start stop size.width).spanRows start stop size.height

/-- Gives all cells of a row its distance from the row before it, and each of them the distance from the column
before it that the cell of that column in row 0 has. -/
def broadcastRow (g : Grid α) (row : Nat) : Grid α :=
  let dy := (g.cell row 0).delta.dy
  (List.range (g.cols + 1)).foldl
    (fun g col =>
      let dx := (g.cell 0 col).delta.dx
      g.update (.cell (g.index row col)) fun _ => ⟨dx, dy⟩)
    g

/-- Copies the gaps of row 0 and column 0 to every cell, row by row, over the cells that they are read from. -/
def broadcast (g : Grid α) : Grid α := (List.range (g.rows + 1)).foldl broadcastRow g

def setPoint (g : Grid α) (row col : Nat) (point : Point α) : Grid α :=
  { g with
    cells := g.cells.modify (g.index row col) fun c => { c with point }
    size_cells := Array.size_modify.trans g.size_cells }

def placeRow (g : Grid α) (margin y : α) (row : Nat) : Grid α × α :=
  (List.range (g.cols + 1)).foldl
    (fun (g, x) col =>
      let x := x + (g.cell row col).delta.dx
      (g.setPoint row col ⟨x, y⟩, x))
    (g, margin)

/-- Adds the distances up to points, row by row and from the margin on. The picture reaches as far as any row and as
the last one, and then the trailing gaps and the margin again. -/
def place (g : Grid α) (margin : α) : Grid α × Size α :=
  let placed := (List.range (g.rows + 1)).foldl
    (fun (g, right, y) row =>
      let y := y + (g.cell row 0).delta.dy
      let (g, x) := g.placeRow margin y row
      (g, max right x, y))
    (g, margin, margin)
  (placed.1, ⟨placed.2.1 + g.trailing.dx + margin, placed.2.2 + g.trailing.dy + margin⟩)

def clear (g : Grid α) : Grid α where
  rows := g.rows
  cols := g.cols
  cells := g.cells.map fun _ => .zero
  trailing := .zero
  size_cells := Array.size_map.trans g.size_cells

/-- The grid under some constraints, applied in order to the cells of the grid as it was, and the size of the
picture around it. -/
def resolve (g : Grid α) (margin : α) (constraints : List (Constraint α)) : Grid α × Size α :=
  (constraints.foldl apply g.clear).broadcast.place margin

end Grid

end SequenceChart
