import SequenceChart.Drawing.Call
import SequenceChart.Grid.Basic

/-! Graphics: items placed on a grid. The order of placement is the order in which constraints are applied
and in which items are drawn, later ones over earlier ones. -/

namespace SequenceChart

class GridItem (σ : Type) (α : outParam Type) where
  constraints : σ → (pos : GridPos) → (rows cols : Nat) → List (Constraint α)
  draw : σ → Grid α → (point : Point α) → List (Call α)

structure Placed (σ : Type) where
  pos : GridPos
  item : σ

structure OutsideGrid where
  pos : GridPos
  rows : Nat
  cols : Nat
deriving DecidableEq, Repr

def OutsideGrid.message (e : OutsideGrid) : String :=
  "grid position " ++ e.pos.text ++ " is outside the grid (last row " ++ toString e.rows ++
    ", last column " ++ toString e.cols ++ ")"

structure Picture (α : Type) where
  size : Size α
  calls : List (Call α)

structure Graphic (σ α : Type) where
  grid : Grid α
  items : List (Placed σ)
  margin : α
  rejected : Nat

namespace Graphic

variable {σ α : Type} [Length α] [GridItem σ α]

def empty (rows cols : Nat) (margin : α) : Graphic σ α := ⟨.empty rows cols, [], margin, 0⟩

/-- Places an item, or counts it as rejected. -/
def put (g : Graphic σ α) (pos : GridPos) (item : σ) : Except OutsideGrid Unit × Graphic σ α :=
  if g.grid.Contains pos then (.ok (), { g with items := g.items ++ [⟨pos, item⟩] })
  else (.error ⟨pos, g.grid.rows, g.grid.cols⟩, { g with rejected := g.rejected + 1 })

omit [Length α] [GridItem σ α] in
theorem put_of_contains {g : Graphic σ α} {pos : GridPos} (h : g.grid.Contains pos) (item : σ) :
    g.put pos item = (.ok (), { g with items := g.items ++ [⟨pos, item⟩] }) :=
  if_pos h

def constraints (g : Graphic σ α) : List (Constraint α) :=
  g.items.flatMap fun placed => GridItem.constraints placed.item placed.pos g.grid.rows g.grid.cols

def resolve (g : Graphic σ α) : Graphic σ α × Size α :=
  let (grid, size) := g.grid.resolve g.margin g.constraints
  ({ g with grid }, size)

def marks (g : Graphic σ α) : List (Call α) :=
  g.items.flatMap fun placed =>
    GridItem.draw placed.item g.grid (g.grid.point placed.pos.row placed.pos.col)

def draw (g : Graphic σ α) : Graphic σ α × Picture α :=
  let (g, size) := g.resolve
  (g, ⟨size, .setSize size :: (g.marks ++ [.close])⟩)

end Graphic

end SequenceChart
