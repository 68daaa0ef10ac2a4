import SequenceChart.Diagram.IconSet
import SequenceChart.Drawing.Call

/-! Icons as drawings: a size, and the calls that draw the icon with its upper left corner at a point. -/

namespace SequenceChart

class Icon (ι α : Type) where
  size : ι → Size α
  draw : ι → (corner : Point α) → Stroke α → (fill : Color) → List (Call α)

variable {α : Type} [Length α]

namespace StickFigure

def headRadius : α := 6.0
def bodyLength : α := 12.0
def armSpan : α := 20.0
def legLength : α := 10.0

def size : Size α := ⟨armSpan, headRadius * 2.0 + bodyLength + legLength⟩

def draw (corner : Point α) (stroke : Stroke α) (fill : Color) : List (Call α) :=
  let center := corner.x + armSpan / 2.0
  let neck := corner.y + headRadius * 2.0
  let hip := neck + bodyLength
  let shoulder := neck + bodyLength / 3.0
  let half : α := armSpan / 2.0
  [.circle ⟨center, corner.y + headRadius⟩ headRadius (some stroke) (some fill),
    .line ⟨center, neck⟩ ⟨center, hip⟩ stroke,
    .line ⟨center - half, shoulder⟩ ⟨center + half, shoulder⟩ stroke,
    .polyline [⟨center - half * 0.8, hip + legLength⟩, ⟨center, hip⟩, ⟨center + half * 0.8, hip + legLength⟩]
      stroke]

end StickFigure

namespace Drum

def width : α := 24.0
def height : α := 28.0
def cap : α := 4.0

def size : Size α := ⟨width, height⟩

def draw (corner : Point α) (stroke : Stroke α) (fill : Color) : List (Call α) :=
  let left := corner.x
  let right := corner.x + width
  let middle := corner.x + width / 2.0
  let top := corner.y + cap
  let bottom := corner.y + height - cap
  [.path
      [.move ⟨left, top⟩, .line ⟨left, bottom⟩, .quadratic ⟨middle, bottom + cap * 2.0⟩ ⟨right, bottom⟩,
        .line ⟨right, top⟩, .quadratic ⟨middle, top + cap * 2.0⟩ ⟨left, top⟩, .close]
      (some stroke) (some fill),
    .path
      [.move ⟨left, top⟩, .quadratic ⟨middle, top - cap * 2.0⟩ ⟨right, top⟩,
        .quadratic ⟨middle, top + cap * 2.0⟩ ⟨left, top⟩, .close]
      (some stroke) (some fill)]

end Drum

instance : Icon BuiltinIcon α where
  size
    | .stickFigure => StickFigure.size
    | .drum => Drum.size
  draw
    | .stickFigure => StickFigure.draw
    | .drum => Drum.draw

end SequenceChart
