import SequenceChart.Drawing.TextBlock
import SequenceChart.Grid.Basic
import SequenceChart.Vocabulary

/-! Notes: a sheet with its upper right corner folded, whose lower edge lies on its row. -/

namespace SequenceChart.Shape

structure NoteBox (α : Type) where
  alignment : Alignment
  otherCol : Option Nat
  text : TextBlock α
  padding : α
  offset : α
  fold : α
  descent : α
  stroke : Stroke α
  fill : Color

namespace NoteBox

variable {α : Type} [Length α]

def size (n : NoteBox α) : Size α :=
  let text := n.text.size
  ⟨text.width + 2.0 * n.padding, text.height + 2.0 * n.padding⟩

/-- The left and the right edge of the sheet. A sheet over two columns covers both, and more on either
side if its text needs it. -/
def edges (n : NoteBox α) (x : α) (otherX : Option α) : α × α :=
  let width := n.size.width
  match n.alignment, otherX with
  | .left, _ => (x - n.offset - width, x - n.offset)
  | .right, _ => (x + n.offset, x + n.offset + width)
  | .over, none => (x - width / 2.0, x + width / 2.0)
  | .over, some other =>
    let left := min x other
    let right := max x other
    let covered := right - left + 2.0 * n.offset
    let extra := max (width - covered) 0.0 / 2.0
    (left - n.offset - extra, right + n.offset + extra)

def sideConstraints (n : NoteBox α) (pos : GridPos) : List (Constraint α) :=
  let width := n.size.width
  match n.alignment, n.otherCol with
  | .left, _ => [.floor pos (.horizontal (width + 2.0 * n.offset) 0.0)]
  | .right, _ => [.floor pos (.horizontal 0.0 (width + 2.0 * n.offset))]
  | .over, none =>
    let half := width / 2.0 + n.offset
    [.floor pos (.horizontal half half)]
  | .over, some other =>
    let first : GridPos := ⟨pos.row, min pos.col other⟩
    let last : GridPos := ⟨pos.row, max pos.col other⟩
    [.floor first (.horizontal (2.0 * n.offset) 0.0), .floor last (.horizontal 0.0 (2.0 * n.offset)),
      .span first last ⟨width - 2.0 * n.offset, 0.0⟩]

def constraints (n : NoteBox α) (pos : GridPos) : List (Constraint α) :=
  .floor pos (.vertical (n.size.height + n.padding) n.descent) :: n.sideConstraints pos

def draw (n : NoteBox α) (g : Grid α) (point : Point α) : List (Call α) :=
  let (left, right) := n.edges point.x (n.otherCol.map fun col => (g.point 0 col).x)
  let bottom := point.y
  let top := bottom - n.size.height
  let fold := min (min n.fold (right - left)) (bottom - top)
  .polygon [⟨left, top⟩, ⟨right - fold, top⟩, ⟨right, top + fold⟩, ⟨right, bottom⟩, ⟨left, bottom⟩]
      (some n.stroke) (some n.fill) ::
    .polyline [⟨right - fold, top⟩, ⟨right - fold, top + fold⟩, ⟨right, top + fold⟩] n.stroke ::
    n.text.draw ⟨(left + right - n.text.size.width) / 2.0, top + n.padding⟩ .left

end NoteBox

end SequenceChart.Shape
