import SequenceChart.Number.Binary64

/-! Decimal text of binary64 numbers with a bounded number of places: the exact value is rounded to the
last place, ties to even, and written with all places; zeros that say nothing are then taken off its end. -/

namespace SequenceChart.Decimal

def lastDigits : (count n : Nat) → List Char
  | 0, _ => []
  | count + 1, n => lastDigits count (n / 10) ++ [Nat.digitChar (n % 10)]

def fixed (places n : Nat) : List Char :=
  Nat.toDigits 10 (n / Nat.pow 10 places) ++ '.' :: lastDigits places n

def units (places significand : Nat) (exponent : Int) : Nat :=
  Binary64.roundQuotient ((significand * Nat.pow 10 places) <<< exponent.toNat) (1 <<< (-exponent).toNat)

/-- A value with all its places. Zero keeps its sign, and what is no number is named. -/
def ofValue (places : Nat) : Binary64.Value → List Char
  | .nan => ['N', 'a', 'N']
  | .infinite negative => (if negative then ['-'] else []) ++ ['i', 'n', 'f']
  | .finite negative significand exponent =>
    (if negative then ['-'] else []) ++ fixed places (units places significand exponent)

def dropEnd (c : Char) (text : List Char) : List Char := (text.reverse.dropWhile (· == c)).reverse

/-- A decimal without the zeros that end it, nor a point that would then end it. Zero has no sign. -/
def trim (text : List Char) : List Char :=
  let text := dropEnd '.' (dropEnd '0' text)
  if text = ['-', '0'] ∨ text = [] then ['0'] else text

def ofFloat (places : Nat) (x : Float) : List Char :=
  trim (ofValue places (Binary64.decode x.toBits))

end SequenceChart.Decimal
