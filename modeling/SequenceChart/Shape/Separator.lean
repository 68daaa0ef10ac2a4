import SequenceChart.Drawing.TextBlock
import SequenceChart.Grid.Basic
import SequenceChart.Vocabulary

/-! Dividers drawn over the full width, with a text in their middle; their lower edge lies on their row. -/

namespace SequenceChart.Shape

structure Separator (α : Type) where
  kind : DividerKind
  text : TextBlock α
  minHeight : α
  padding : α
  stroke : Stroke α
  fill : Color
  labelFill : Color

namespace Separator

variable {α : Type} [Length α]

def height (s : Separator α) : α := max (s.text.size.height + 2.0 * s.padding) s.minHeight

def constraints (s : Separator α) (pos : GridPos) (cols : Nat) : List (Constraint α) :=
  [.floor pos (.vertical s.height 0.0),
    .span pos ⟨pos.row, cols⟩ ⟨s.text.size.width + 4.0 * s.padding, 0.0⟩]

def draw (s : Separator α) (g : Grid α) (point : Point α) : List (Call α) :=
  let left := point.x
  let right := (g.point 0 g.cols).x
  let top := point.y - s.height
  let middle := top + s.height / 2.0
  let text := s.text.size
  let corner : Point α := ⟨(left + right - text.width) / 2.0, middle - text.height / 2.0⟩
  match s.kind with
  | .spacer => s.text.drawLabel corner s.labelFill .center
  | .gap =>
    .rect ⟨left, top⟩ ⟨right - left, s.height⟩ none (some s.fill) :: s.text.draw corner .center
  | .frame =>
    .rect ⟨corner.x - s.padding, corner.y - s.padding⟩
        ⟨text.width + 2.0 * s.padding, text.height + 2.0 * s.padding⟩ (some s.stroke) (some s.fill) ::
      s.text.draw corner .center
  | .line =>
    .line ⟨left, middle⟩ ⟨right, middle⟩ s.stroke :: s.text.drawLabel corner s.labelFill .center

end Separator

end SequenceChart.Shape
