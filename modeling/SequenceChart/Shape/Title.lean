import SequenceChart.Drawing.TextBlock
import SequenceChart.Grid.Basic

/-! The title of a chart, centred over its whole width. -/

namespace SequenceChart.Shape

structure Title (α : Type) where
  text : TextBlock α
  gap : α

namespace Title

variable {α : Type} [Length α]

def constraints (t : Title α) (pos : GridPos) (cols : Nat) : List (Constraint α) :=
  let size := t.text.size
  [.floor pos (.vertical (size.height + t.gap) 0.0), .span pos ⟨pos.row, cols⟩ ⟨size.width, 0.0⟩]

def draw (t : Title α) (g : Grid α) (point : Point α) : List (Call α) :=
  let size := t.text.size
  let right := (g.point 0 g.cols).x
  t.text.draw ⟨(point.x + right - size.width) / 2.0, point.y - size.height - t.gap / 2.0⟩ .center

end Title

end SequenceChart.Shape
