import SequenceChart.Drawing.TextBlock
import SequenceChart.Grid.Basic
import SequenceChart.Vocabulary

/-! Messages: an arrow between two columns, or a loop that leaves a column and comes back to it. The arrow
lies on its row, its label above it; the label of a loop stands to the right of the loop. -/

namespace SequenceChart.Shape

structure Message (α : Type) where
  fromCol : Nat
  toCol : Nat
  arrow : Arrow
  label : TextBlock α
  labelFill : Color
  stroke : Stroke α
  padding : α
  labelGap : α
  descent : α
  loop : Size α

variable {α : Type} [Length α]

namespace Message

def headLength : α := 8.0

def headHalfWidth : α := 4.0

def thickWidth : α := 2.5

def isLoop (m : Message α) : Bool := m.fromCol = m.toCol

def constraints (m : Message α) (pos : GridPos) : List (Constraint α) :=
  let label := m.label.size
  if m.isLoop then
    [.add pos (.horizontal 0.0 (m.loop.width + m.labelGap + label.width + m.padding)),
      .floor pos (.vertical (max m.loop.height label.height + m.labelGap) m.descent)]
  else
    [.span pos ⟨pos.row, m.toCol⟩ ⟨label.width + 2.0 * m.padding, 0.0⟩,
      .floor pos (.vertical (label.height + m.labelGap) m.descent)]

def stem (m : Message α) : Stroke α :=
  match m.arrow.stem with
  | .solid => m.stroke
  | .dashed => m.stroke.dashed
  | .thick => { m.stroke with width := thickWidth }

def drawHead (m : Message α) (tip : Point α) (rightward : Bool) : List (Call α) :=
  let base := if rightward then tip.x - headLength else tip.x + headLength
  let upper : Point α := ⟨base, tip.y - headHalfWidth⟩
  let lower : Point α := ⟨base, tip.y + headHalfWidth⟩
  let stroke := { m.stroke with dash := [] }
  match m.arrow.head with
  | .filled => [.polygon [tip, upper, lower] (some stroke) (some m.stroke.color)]
  | .lines => [.polyline [upper, tip, lower] stroke]
  | .barbed => [.polyline [upper, tip] stroke]
  | .lowerBarbed => [.polyline [lower, tip] stroke]

def drawLoop (m : Message α) (point : Point α) : List (Call α) :=
  let ⟨width, height⟩ := m.loop
  let top := point.y - height
  let label := m.label.size
  .polyline [⟨point.x, top⟩, ⟨point.x + width, top⟩, ⟨point.x + width, point.y⟩, point] m.stem ::
    (m.drawHead point false ++
      m.label.drawLabel
        ⟨point.x + width + m.labelGap, point.y - height / 2.0 - label.height / 2.0⟩ m.labelFill .left)

def drawArrow (m : Message α) (point : Point α) (toX : α) : List (Call α) :=
  let stop : Point α := ⟨toX, point.y⟩
  let middle := (point.x + toX) / 2.0
  let label := m.label.size
  .line point stop m.stem ::
    (m.drawHead stop (point.x ≤ toX) ++
      m.label.drawLabel ⟨middle - label.width / 2.0, point.y - m.labelGap - label.height⟩ m.labelFill
        .center)

def draw (m : Message α) (g : Grid α) (point : Point α) : List (Call α) :=
  if m.isLoop then m.drawLoop point else m.drawArrow point (g.point 0 m.toCol).x

end Message

end SequenceChart.Shape
