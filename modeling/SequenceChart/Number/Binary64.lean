/-! Binary64 words: the exact value of a word, and the word nearest to a quotient of naturals.
Everything is natural-number arithmetic, so both directions are exact at any magnitude. -/

namespace SequenceChart.Binary64

/-- What a 64-bit word stands for; a finite word is `± significand · 2 ^ exponent`. -/
inductive Value where
  | nan
  | infinite (negative : Bool)
  | finite (negative : Bool) (significand : Nat) (exponent : Int)
deriving DecidableEq, Repr

def hiddenBit : Nat := 1 <<< 52

def signBit : Nat := 1 <<< 63

def decode (word : UInt64) : Value :=
  let bits := word.toNat
  let negative := bits / signBit == 1
  let exponent : Nat := bits / hiddenBit % 2048
  let fraction := bits % hiddenBit
  if exponent = 2047 then
    if fraction = 0 then .infinite negative else .nan
  else if exponent = 0 then
    .finite negative fraction (-1074)
  else
    .finite negative (hiddenBit + fraction) ((exponent : Int) - 1075)

def roundQuotient (num den : Nat) : Nat :=
  let quotient := num / den
  let rest := 2 * (num % den)
  if rest < den then quotient
  else if den < rest then quotient + 1
  else quotient + quotient % 2

/-- The fraction `num / den / 2 ^ exponent`, written without negative powers. -/
def scaled (num den : Nat) (exponent : Int) : Nat × Nat :=
  (num <<< (-exponent).toNat, den <<< exponent.toNat)

def unitExponent (num den : Nat) : Int :=
  let guess : Int := (num.log2 : Int) - den.log2
  let (n, d) := scaled num den guess
  max ((if n < d then guess - 1 else guess) - 52) (-1074)

def infinityWord : Nat := 2047 * hiddenBit

/-- The magnitude bits of the number nearest to `num / den`, ties to even. A significand that rounds up
to `2 ^ 53` carries into the exponent field, and past the greatest number lies infinity. -/
def nearestWord (num den : Nat) : Nat :=
  if num = 0 then 0
  else
    let exponent := unitExponent num den
    let (n, d) := scaled num den exponent
    min ((exponent + 1074).toNat * hiddenBit + roundQuotient n d) infinityWord

/-- The magnitude bits of the number nearest to `digits · 10 ^ exponent`. Exponents far outside the
range are answered without computing the power. -/
def nearestDecimalWord (digits : Nat) (exponent : Int) : Nat :=
  let magnitude := exponent + digits.log2 / 3
  if digits = 0 ∨ magnitude < -400 then 0
  else if 400 < exponent then infinityWord
  else nearestWord (digits * Nat.pow 10 exponent.toNat) (Nat.pow 10 (-exponent).toNat)

def ofDecimal (negative : Bool) (digits : Nat) (exponent : Int) : UInt64 :=
  UInt64.ofNat ((if negative then signBit else 0) + nearestDecimalWord digits exponent)

end SequenceChart.Binary64
