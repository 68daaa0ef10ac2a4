import SequenceChart.Drawing.Icon
import SequenceChart.Drawing.TextBlock
import SequenceChart.Grid.Basic

/-! The box of an actor, with its icon over its label. In the header the box stands above its row, in the
footer below it. -/

namespace SequenceChart.Shape

structure ActorBox (ι α : Type) where
  label : TextBlock α
  icon : Option (IconRef ι)
  footer : Bool
  padding : α
  iconGap : α
  gap : α
  stroke : Stroke α
  fill : Color
  iconFill : Color

namespace ActorBox

variable {ι α : Type} [Length α] [Icon ι α]

def iconRoom (b : ActorBox ι α) : Size α :=
  match b.icon with
  | some ref =>
    let size : Size α := Icon.size ref.icon
    ⟨size.width, size.height + b.iconGap⟩
  | none => .zero

def size (b : ActorBox ι α) : Size α :=
  let label := b.label.size
  let icon := b.iconRoom
  ⟨max label.width icon.width + 2.0 * b.padding, label.height + icon.height + 2.0 * b.padding⟩

/-- Half the box and half the gap to the next one on either side, the whole box above or below. -/
def constraints (b : ActorBox ι α) (pos : GridPos) : List (Constraint α) :=
  let size := b.size
  let half := size.width / 2.0 + b.gap / 2.0
  [.floor pos (if b.footer then ⟨half, half, 0.0, size.height⟩ else ⟨half, half, size.height, 0.0⟩)]

def drawIcon (b : ActorBox ι α) (x y : α) : List (Call α) :=
  match b.icon with
  | some ref =>
    let size : Size α := Icon.size ref.icon
    Icon.draw ref.icon ⟨x - size.width / 2.0, y⟩ b.stroke b.iconFill
  | none => []

def labelTop (b : ActorBox ι α) (y : α) : α :=
  match b.icon with
  | some ref => y + ((Icon.size ref.icon : Size α).height + b.iconGap)
  | none => y

def draw (b : ActorBox ι α) (point : Point α) : List (Call α) :=
  let size := b.size
  let top := if b.footer then point.y else point.y - size.height
  let inner := top + b.padding
  .rect ⟨point.x - size.width / 2.0, top⟩ size (some b.stroke) (some b.fill) ::
    (b.drawIcon point.x inner ++
      b.label.draw ⟨point.x - b.label.size.width / 2.0, b.labelTop inner⟩ .center)

end ActorBox

end SequenceChart.Shape
