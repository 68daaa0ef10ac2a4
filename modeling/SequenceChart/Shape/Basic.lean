import SequenceChart.Grid.Graphic
import SequenceChart.Shape.ActorBox
import SequenceChart.Shape.Frame
import SequenceChart.Shape.Lifeline
import SequenceChart.Shape.Message
import SequenceChart.Shape.NoteBox
import SequenceChart.Shape.Separator
import SequenceChart.Shape.Title

/-! Shapes: everything that a chart places on its grid. A shape is measured when it is made; after that it
only says what room it needs and reads the points of the grid. -/

namespace SequenceChart

inductive Shape (ι α : Type) where
  | title (t : Shape.Title α)
  | actorBox (b : Shape.ActorBox ι α)
  | lifeline (l : Shape.Lifeline α)
  | message (m : Shape.Message α)
  | note (n : Shape.NoteBox α)
  | separator (s : Shape.Separator α)
  | frame (f : Shape.Frame α)

namespace Shape

variable {ι α : Type} [Length α] [Icon ι α]

def constraints (shape : Shape ι α) (pos : GridPos) (cols : Nat) : List (Constraint α) :=
  match shape with
  | title t => t.constraints pos cols
  | actorBox b => b.constraints pos
  | lifeline l => l.constraints pos
  | message m => m.constraints pos
  | note n => n.constraints pos
  | separator s => s.constraints pos cols
  | frame f => f.constraints pos cols

def draw (shape : Shape ι α) (g : Grid α) (point : Point α) : List (Call α) :=
  match shape with
  | title t => t.draw g point
  | actorBox b => b.draw point
  | lifeline l => l.draw g point
  | message m => m.draw g point
  | note n => n.draw g point
  | separator s => s.draw g point
  | frame f => f.draw g

instance : GridItem (Shape ι α) α where
  constraints shape pos _ cols := shape.constraints pos cols
  draw := draw

end Shape

end SequenceChart
