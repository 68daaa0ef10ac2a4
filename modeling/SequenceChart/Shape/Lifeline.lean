import SequenceChart.Drawing.Call
import SequenceChart.Grid.Basic

/-! The line of an actor from its header row down to its footer row. -/

namespace SequenceChart.Shape

structure Lifeline (α : Type) where
  col : Nat
  footerRow : Nat
  spacer : α
  stroke : Stroke α

namespace Lifeline

variable {α : Type} [Length α]

def constraints (l : Lifeline α) (pos : GridPos) : List (Constraint α) :=
  [.floor ⟨l.footerRow, pos.col⟩ (.vertical l.spacer 0.0)]

def draw (l : Lifeline α) (g : Grid α) (point : Point α) : List (Call α) :=
  [.line point (g.point l.footerRow l.col) l.stroke]

end Lifeline

end SequenceChart.Shape
