import SequenceChart.Length

/-! Colours with a red, a green, a blue and an alpha channel of eight bits each. -/

namespace SequenceChart

structure Color where
  r : UInt8
  g : UInt8
  b : UInt8
  a : UInt8
deriving DecidableEq, Repr

namespace Color

def rgb (r g b : UInt8) : Color := ⟨r, g, b, 255⟩

def black : Color := rgb 0 0 0

def white : Color := rgb 255 255 255

def transparent : Color := ⟨0, 0, 0, 0⟩

def channelDigits (channel : UInt8) : List Char :=
  let digits := Nat.toDigits 16 channel.toNat
  List.replicate (2 - digits.length) '0' ++ digits

/-- The colour as `#rrggbb`; alpha is not part of it. -/
def hex (c : Color) : List Char :=
  '#' :: (channelDigits c.r ++ channelDigits c.g ++ channelDigits c.b)

def opacity {α : Type} [Length α] (c : Color) : α := ((c.a.toNat : Nat) : α) / 255.0

def isOpaque (c : Color) : Bool := c.a == 255

end Color

end SequenceChart
