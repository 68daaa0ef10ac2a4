import SequenceChart.Length

/-! Points and sizes on the drawing surface; `y` grows downward. -/

namespace SequenceChart

structure Point (α : Type) where
  x : α
  y : α
deriving DecidableEq, Repr

structure Size (α : Type) where
  width : α
  height : α
deriving DecidableEq, Repr

namespace Point

variable {α : Type} [Length α]

def origin : Point α := ⟨0.0, 0.0⟩

end Point

namespace Size

variable {α : Type} [Length α]

def zero : Size α := ⟨0.0, 0.0⟩

end Size

end SequenceChart
