/-! Numerals as instructions write them: an optional sign, then `inf`, `infinity` or `nan` in any letter
case, or decimal digits with an optional point and an optional exponent. -/

namespace SequenceChart

/-- A numeral that was read; a decimal one is `± digits · 10 ^ exponent`. -/
inductive Numeral where
  | nan
  | infinite (negative : Bool)
  | decimal (negative : Bool) (digits : Nat) (exponent : Int)
deriving DecidableEq, Repr

namespace Numeral

def digitsValue (digits : List Char) : Nat :=
  digits.foldl (fun n c => 10 * n + (c.toNat - '0'.toNat)) 0

def splitSign : List Char → Bool × List Char
  | '-' :: rest => (true, rest)
  | '+' :: rest => (false, rest)
  | text => (false, text)

def readExponent? : List Char → Option Int
  | [] => some 0
  | c :: rest =>
    if c = 'e' ∨ c = 'E' then
      let (negative, digits) := splitSign rest
      if digits ≠ [] ∧ digits.all Char.isDigit then
        some (if negative then -(digitsValue digits : Int) else digitsValue digits)
      else none
    else none

/-- Digits with an optional point, at least one digit in all, then an optional exponent. -/
def readDecimal? (negative : Bool) (text : List Char) : Option Numeral :=
  let whole := text.takeWhile Char.isDigit
  let (fraction, rest) := match text.dropWhile Char.isDigit with
    | '.' :: rest => (rest.takeWhile Char.isDigit, rest.dropWhile Char.isDigit)
    | rest => ([], rest)
  if whole ++ fraction = [] then none
  else
    (readExponent? rest).map fun exponent =>
      .decimal negative (digitsValue (whole ++ fraction)) (exponent - fraction.length)

def read? (text : List Char) : Option Numeral :=
  let (negative, rest) := splitSign text
  let name := String.ofList (rest.map Char.toLower)
  if name = "inf" ∨ name = "infinity" then some (.infinite negative)
  else if name = "nan" then some .nan
  else readDecimal? negative rest

end Numeral

end SequenceChart
