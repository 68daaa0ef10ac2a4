import SequenceChart.Number.Binary64

/-! Lengths: the arithmetic that measuring, placing and drawing need. Charts are drawn with binary64
numbers; laws about positions read the same definitions on exact rationals. -/

namespace SequenceChart

class Length (α : Type) extends Add α, Sub α, Mul α, Div α, Max α, Min α, BEq α, LT α, LE α,
    NatCast α, OfScientific α where
  decidableLT : ∀ a b : α, Decidable (a < b)
  decidableLE : ∀ a b : α, Decidable (a ≤ b)
  isFinite : α → Bool
  ofDecimal : (negative : Bool) → (digits : Nat) → (exponent : Int) → α
  /-- To take the same length into account again changes nothing. -/
  max_max_right : ∀ a b : α, max (max a b) b = max a b

namespace Length

variable {α : Type} [Length α]

instance instDecidableLT (a b : α) : Decidable (a < b) := decidableLT a b

instance instDecidableLE (a b : α) : Decidable (a ≤ b) := decidableLE a b

end Length

/-- The greater and the smaller of a number and a NaN are the number. -/
instance : Length Float where
  max a b := if a.isNaN then b else if b.isNaN then a else if a < b then b else a
  min a b := if a.isNaN then b else if b.isNaN then a else if b < a then b else a
  natCast := Float.ofNat
  decidableLT := inferInstance
  decidableLE := inferInstance
  isFinite := Float.isFinite
  ofDecimal negative digits exponent := Float.ofBits (Binary64.ofDecimal negative digits exponent)
  max_max_right a b := by
    by_cases ha : a.isNaN <;> by_cases hb : b.isNaN <;> by_cases hlt : a < b <;>
      simp only [ha, hb, hlt, Bool.false_eq_true, if_true, if_false, ite_self]

instance : Length Rat where
  max a b := if a ≤ b then b else a
  min a b := if a ≤ b then a else b
  decidableLT := inferInstance
  decidableLE := inferInstance
  isFinite _ := true
  ofDecimal negative digits exponent :=
    let magnitude : Rat := mkRat (digits * Nat.pow 10 exponent.toNat) (Nat.pow 10 (-exponent).toNat)
    if negative then -magnitude else magnitude
  max_max_right a b := by
    by_cases hle : a ≤ b <;> simp only [hle, if_true, if_false, ite_self]

end SequenceChart
