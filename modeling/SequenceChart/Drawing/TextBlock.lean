import SequenceChart.Drawing.Call
import SequenceChart.Drawing.Font
import SequenceChart.Text.Lines

/-! Text blocks: rows of text that have been measured and can be drawn. An empty text has no rows. -/

namespace SequenceChart

inductive TextAlign where
  | left
  | center
deriving DecidableEq, Repr

structure TextRow (α : Type) where
  text : String
  width : α
deriving DecidableEq, Repr

structure TextBlock (α : Type) where
  rows : List (TextRow α)
  rowHeight : α
  style : TextStyle α

namespace TextBlock

variable {α : Type} [Length α]

/-- The rows of a text; each takes the height of the highest one. -/
def measure (font : Font α) (text : String) (style : TextStyle α) : TextBlock α :=
  let texts := if text.isEmpty then [] else (Text.rows text.toList).map String.ofList
  let sizes := texts.map fun row => font.measure row style.size
  { rows := List.zipWith (fun row (size : Size α) => ⟨row, size.width⟩) texts sizes
    rowHeight := sizes.foldl (fun height size => max height size.height) (Font.rowHeight style.size)
    style }

def isEmpty (b : TextBlock α) : Bool := b.rows.isEmpty

def size (b : TextBlock α) : Size α :=
  ⟨b.rows.foldl (fun width row => max width row.width) 0.0, (b.rows.length : α) * b.rowHeight⟩

def draw (b : TextBlock α) (corner : Point α) (align : TextAlign) : List (Call α) :=
  b.rows.zipIdx.map fun (row, i) =>
    let x := match align with
      | .left => corner.x
      | .center => corner.x + (b.size.width - row.width) / 2.0
    .text ⟨x, corner.y + (i : α) * b.rowHeight⟩ row.text b.style

def drawLabel (b : TextBlock α) (corner : Point α) (background : Color) (align : TextAlign) :
    List (Call α) :=
  if b.isEmpty then []
  else .rect corner b.size none (some background) :: b.draw corner align

end TextBlock

end SequenceChart
