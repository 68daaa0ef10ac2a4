import SequenceChart.Drawing.Color
import SequenceChart.Drawing.Geometry

/-! Drawing calls: what a picture is made of, in the order of drawing. A picture starts with its size and
ends with a close; what lies between are marks. -/

namespace SequenceChart

structure Stroke (α : Type) where
  color : Color
  width : α
  /-- Lengths of dashes and gaps; a solid line has none. -/
  dash : List α
deriving DecidableEq, Repr

structure TextStyle (α : Type) where
  font : String
  size : α
  color : Color
  bold : Bool
deriving DecidableEq, Repr

inductive PathStep (α : Type) where
  | move (target : Point α)
  | line (target : Point α)
  | quadratic (control target : Point α)
  | close
deriving DecidableEq, Repr

inductive Call (α : Type) where
  | setSize (size : Size α)
  | line (start stop : Point α) (stroke : Stroke α)
  | rect (corner : Point α) (size : Size α) (stroke : Option (Stroke α)) (fill : Option Color)
  | circle (center : Point α) (radius : α) (stroke : Option (Stroke α)) (fill : Option Color)
  | text (corner : Point α) (content : String) (style : TextStyle α)
  | polygon (points : List (Point α)) (stroke : Option (Stroke α)) (fill : Option Color)
  | polyline (points : List (Point α)) (stroke : Stroke α)
  | path (steps : List (PathStep α)) (stroke : Option (Stroke α)) (fill : Option Color)
  | close
deriving DecidableEq, Repr

namespace Stroke

variable {α : Type}

def solid (color : Color) (width : α) : Stroke α := ⟨color, width, []⟩

def isDashed (s : Stroke α) : Bool := !s.dash.isEmpty

def dashed [Length α] (s : Stroke α) : Stroke α := { s with dash := [6.0, 4.0] }

end Stroke

namespace Call

variable {α : Type}

def isMark : Call α → Bool
  | setSize _ => false
  | close => false
  | _ => true

end Call

end SequenceChart
