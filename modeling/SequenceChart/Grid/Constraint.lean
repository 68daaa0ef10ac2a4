import SequenceChart.Drawing.Geometry

/-! Constraints on the gaps between the columns and the rows of a grid. -/

namespace SequenceChart

structure GridPos where
  row : Nat
  col : Nat
deriving DecidableEq, Repr

def GridPos.text (p : GridPos) : String := "(" ++ toString p.row ++ ", " ++ toString p.col ++ ")"

structure Sides (α : Type) where
  left : α
  right : α
  top : α
  bottom : α
deriving DecidableEq, Repr

namespace Sides

variable {α : Type} [Length α]

def horizontal (left right : α) : Sides α := ⟨left, right, 0.0, 0.0⟩

def vertical (top bottom : α) : Sides α := ⟨0.0, 0.0, top, bottom⟩

end Sides

inductive Constraint (α : Type) where
  /-- The gaps around a place are at least so wide. -/
  | floor (pos : GridPos) (sides : Sides α)
  /-- The gaps around a place are wider by so much. -/
  | add (pos : GridPos) (sides : Sides α)
  /-- Two places are at least so far apart; what is missing is spread evenly over the gaps between. -/
  | span (start stop : GridPos) (size : Size α)
deriving DecidableEq, Repr

end SequenceChart
