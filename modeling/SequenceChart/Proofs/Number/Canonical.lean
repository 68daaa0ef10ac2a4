import SequenceChart.Proofs.Json.Reader
import SequenceChart.Proofs.Number.Rounding
import SequenceChart.Svg.Sheet

/-! Canonical decimals. A number is written with all its places and then trimmed twice; the first time takes zeros off
its places only, for the point stops it, and the second time takes the point off if no place is left. So every number
is written in the one form that its rounded value has. -/

namespace SequenceChart

namespace Numeral

theorem digitsValue_append (digits later : List Char) :
    digitsValue (digits ++ later) = 10 ^ later.length * digitsValue digits + digitsValue later :=
  (Nat.ofDigitChars_append 0).trans Nat.ofDigitChars_eq_ofDigitChars_zero

theorem digitsValue_zeros (count : Nat) : digitsValue (List.replicate count '0') = 0 :=
  Nat.ofDigitChars_replicate_zero.trans (Nat.mul_zero _)

theorem digitsValue_toDigits (n : Nat) : digitsValue (Nat.toDigits 10 n) = n := Nat.ofDigitChars_ten_toDigits

end Numeral

theorem Json.Number.unique {q r : Rat} {text : List Char} (h : Json.Number q text) (hr : Json.Number r text) :
    q = r := by
  have hends : Json.Ends [] := nofun
  have hread := (Json.readNumber_append h hends).symm.trans (Json.readNumber_append hr hends)
  exact congrArg Prod.fst hread

namespace Decimal

open Numeral (digitsValue digitsValue_append)

/-- Decimals in the only form that is written: an optional minus, a whole part without a zero too many at its head, and
a point only before places, which are not too many and do not end in a zero. Zero has no minus. -/
inductive Canonical (places : Nat) : Rat → List Char → Prop
  | mk {negative : Bool} {whole fraction tail : List Char} :
      Json.Whole whole → Json.Fraction fraction tail →
      fraction.length ≤ places → fraction.getLast? ≠ some '0' →
      (negative = true → Json.decimal whole fraction 0 ≠ 0) →
      Canonical places (if negative then -Json.decimal whole fraction 0 else Json.decimal whole fraction 0)
        ((if negative then ['-'] else []) ++ (whole ++ tail))

theorem Canonical.number {places : Nat} {q : Rat} {text : List Char} (h : Canonical places q text) :
    Json.Number q text := by
  obtain ⟨hwhole, hfraction, -, -, -⟩ := h
  rename_i negative whole fraction tail
  have hunsigned := Json.Unsigned.mk hwhole hfraction .none
  rw [List.append_nil] at hunsigned
  cases negative with
  | false => exact .unsigned hunsigned
  | true => exact .negative hunsigned

section Trim

variable {c : Char} {front : List Char}

theorem dropEnd_append_replicate (h : front.getLast? ≠ some c) (count : Nat) :
    dropEnd c (front ++ List.replicate count c) = front := by
  have hstop : front.reverse.dropWhile (· == c) = front.reverse := by
    refine Text.dropWhile_of_head fun d hd => ?_
    rw [List.head?_reverse] at hd
    exact beq_eq_false_iff_ne.mpr fun hdc => h (hdc ▸ hd)
  rw [dropEnd, List.reverse_append, List.reverse_replicate, List.dropWhile_append_of_pos (by simp), hstop,
    List.reverse_reverse]

theorem dropEnd_of_getLast? (h : front.getLast? ≠ some c) : dropEnd c front = front := by
  simpa using dropEnd_append_replicate h 0

theorem exists_dropEnd (c : Char) (text : List Char) : ∃ count, text = dropEnd c text ++ List.replicate count c := by
  have hsplit : text.reverse.takeWhile (· == c) ++ text.reverse.dropWhile (· == c) = text.reverse :=
    List.takeWhile_append_dropWhile
  have htaken : text.reverse.takeWhile (· == c) = List.replicate (text.reverse.takeWhile (· == c)).length c :=
    List.eq_replicate_iff.mpr ⟨rfl, fun d hd => by simpa using List.mem_takeWhile_imp hd⟩
  refine ⟨(text.reverse.takeWhile (· == c)).length, List.reverse_injective ?_⟩
  rw [dropEnd, List.reverse_append, List.reverse_reverse, List.reverse_replicate, ← htaken, hsplit]

theorem getLast?_dropEnd (c : Char) (text : List Char) : (dropEnd c text).getLast? ≠ some c := by
  rw [dropEnd, List.getLast?_reverse]
  intro hlast
  simpa using Text.head?_dropWhile (· == c) text.reverse c hlast

end Trim

theorem length_lastDigits (count n : Nat) : (lastDigits count n).length = count := by
  induction count generalizing n with
  | zero => rfl
  | succ count ih => rw [lastDigits, List.length_append, ih, List.length_singleton]

theorem isDigit_lastDigits (count n : Nat) : ∀ c ∈ lastDigits count n, c.isDigit = true := by
  induction count generalizing n with
  | zero => exact nofun
  | succ count ih =>
    have hdigit : ∀ k < 10, k.digitChar.isDigit = true := by decide
    exact List.forall_mem_append.mpr ⟨ih _, List.forall_mem_singleton.mpr (hdigit _ (Nat.mod_lt n (by decide)))⟩

theorem digitsValue_lastDigits (count n : Nat) : digitsValue (lastDigits count n) = n % 10 ^ count := by
  induction count generalizing n with
  | zero => rw [Nat.pow_zero, Nat.mod_one]; rfl
  | succ count ih =>
    have hdigit : ∀ k < 10, digitsValue [k.digitChar] = k := by decide
    rw [lastDigits, digitsValue_append, ih, hdigit _ (Nat.mod_lt n (by decide)), List.length_singleton, Nat.pow_one,
      Nat.pow_succ', Nat.mod_mul, Nat.add_comm]

def fraction (places n : Nat) : List Char := dropEnd '0' (lastDigits places n)

def pointed (fraction : List Char) : List Char := if fraction = [] then [] else '.' :: fraction

def shortest (places n : Nat) : List Char := Nat.toDigits 10 (n / 10 ^ places) ++ pointed (fraction places n)

theorem exists_fraction (places n : Nat) :
    ∃ count, lastDigits places n = fraction places n ++ List.replicate count '0' :=
  exists_dropEnd '0' (lastDigits places n)

theorem isDigit_fraction (places n : Nat) : ∀ c ∈ fraction places n, c.isDigit = true := by
  intro c hc
  obtain ⟨count, hcount⟩ := exists_fraction places n
  exact isDigit_lastDigits places n c (hcount ▸ List.mem_append_left _ hc)

/-- Zeros are taken off the places and not off the whole part, for a point stands between the two. -/
theorem dropEnd_fixed (sign : List Char) (places n : Nat) :
    dropEnd '0' (sign ++ fixed places n) = sign ++ (Nat.toDigits 10 (n / 10 ^ places) ++ '.' :: fraction places n) := by
  obtain ⟨count, hcount⟩ := exists_fraction places n
  have hlast : (sign ++ (Nat.toDigits 10 (n / 10 ^ places) ++ '.' :: fraction places n)).getLast? ≠ some '0' := by
    have hfraction : (fraction places n).getLast? ≠ some '0' := getLast?_dropEnd '0' _
    rw [List.getLast?_append_of_ne_nil _ (by simp), List.getLast?_append_of_ne_nil _ (by simp), List.getLast?_cons]
    cases h : (fraction places n).getLast? with
    | none => decide
    | some c => rwa [h] at hfraction
  have hsplit : sign ++ fixed places n =
      sign ++ (Nat.toDigits 10 (n / 10 ^ places) ++ '.' :: fraction places n) ++ List.replicate count '0' := by
    rw [fixed, hcount]
    simp
  rw [hsplit, dropEnd_append_replicate hlast]

theorem dropEnd_point {digits fraction : List Char} (hdigits : Json.Digits digits)
    (hfraction : ∀ c ∈ fraction, c.isDigit = true) (sign : List Char) :
    dropEnd '.' (sign ++ (digits ++ '.' :: fraction)) = sign ++ (digits ++ pointed fraction) := by
  have hlast : ∀ {front run : List Char}, run ≠ [] → (∀ c ∈ run, c.isDigit = true) →
      (front ++ run).getLast? ≠ some '.' := by
    intro front run hne hrun hpoint
    rw [List.getLast?_append_of_ne_nil _ hne] at hpoint
    exact absurd (hrun _ (List.mem_of_getLast? hpoint)) (by decide)
  unfold pointed
  split_ifs with hnone
  · rw [hnone, List.append_nil, ← List.append_assoc]
    exact dropEnd_append_replicate (hlast hdigits.nonempty hdigits.all) 1
  · refine dropEnd_of_getLast? ?_
    have hsplit : sign ++ (digits ++ '.' :: fraction) = sign ++ digits ++ ['.'] ++ fraction := by simp
    rw [hsplit]
    exact hlast hnone hfraction

theorem lastDigits_zero (count : Nat) : lastDigits count 0 = List.replicate count '0' := by
  induction count with
  | zero => rfl
  | succ count ih => rw [lastDigits, Nat.zero_div, ih, List.replicate_succ']; rfl

theorem shortest_zero (places : Nat) : shortest places 0 = ['0'] := by
  have hfraction : fraction places 0 = [] := by
    rw [fraction, lastDigits_zero]
    exact @dropEnd_append_replicate '0' [] nofun places
  rw [shortest, hfraction, Nat.zero_div]
  rfl

theorem decimal_shortest (places n : Nat) :
    Json.decimal (Nat.toDigits 10 (n / 10 ^ places)) (fraction places n) 0 = (n : Rat) / 10 ^ places := by
  obtain ⟨count, hcount⟩ := exists_fraction places n
  have hlength : places = (fraction places n).length + count := by
    simpa [length_lastDigits] using congrArg List.length hcount
  have hrest : n % 10 ^ places = 10 ^ count * digitsValue (fraction places n) := by
    rw [← digitsValue_lastDigits, hcount, digitsValue_append, Numeral.digitsValue_zeros, List.length_replicate,
      Nat.add_zero]
  have hvalue : n = 10 ^ count * digitsValue (Nat.toDigits 10 (n / 10 ^ places) ++ fraction places n) := by
    calc n = 10 ^ places * (n / 10 ^ places) + n % 10 ^ places := (Nat.div_add_mod _ _).symm
      _ = 10 ^ (fraction places n).length * 10 ^ count * (n / 10 ^ places) +
          10 ^ count * digitsValue (fraction places n) := by rw [hrest, ← Nat.pow_add, ← hlength]
      _ = _ := by rw [digitsValue_append, Numeral.digitsValue_toDigits]; ring
  have hpower : (10 : Rat) ^ places = 10 ^ (fraction places n).length * 10 ^ count := by rw [← pow_add, ← hlength]
  have hunits : (n : Rat) =
      10 ^ count * (digitsValue (Nat.toDigits 10 (n / 10 ^ places) ++ fraction places n) : Nat) := by
    exact_mod_cast hvalue
  rw [Json.decimal, hpower, hunits, zero_sub, zpow_neg, zpow_natCast]
  field_simp

theorem fraction_pointed (places n : Nat) : Json.Fraction (fraction places n) (pointed (fraction places n)) := by
  unfold pointed
  split_ifs with hnone
  · rw [hnone]
    exact .none
  · exact .some ⟨hnone, isDigit_fraction places n⟩

theorem length_fraction_le (places n : Nat) : (fraction places n).length ≤ places := by
  obtain ⟨count, hcount⟩ := exists_fraction places n
  have hlength := congrArg List.length hcount
  rw [length_lastDigits, List.length_append] at hlength
  omega

theorem canonical_shortest (places : Nat) (n : Int) :
    Canonical places (n / 10 ^ places) ((if n < 0 then ['-'] else []) ++ shortest places n.natAbs) := by
  have hvalue : (n : Rat) / 10 ^ places = if n < 0 then -((n.natAbs : Rat) / 10 ^ places)
      else (n.natAbs : Rat) / 10 ^ places := by
    rw [Nat.cast_natAbs]
    split_ifs with hn
    · rw [abs_of_neg hn]
      push_cast
      ring
    · rw [abs_of_nonneg (not_lt.mp hn)]
  have hsigned : decide (n < 0) = true → (n.natAbs : Rat) / 10 ^ places ≠ 0 := by
    intro hn
    have hne : n ≠ 0 := (of_decide_eq_true hn).ne
    positivity
  rw [← decimal_shortest] at hvalue hsigned
  have hmade := Canonical.mk (Json.whole_toDigits _) (fraction_pointed places n.natAbs) (length_fraction_le _ _)
    (getLast?_dropEnd '0' _) hsigned
  simp only [decide_eq_true_eq, ← hvalue] at hmade
  exact hmade

theorem shortest_eq_zero {places n : Nat} : shortest places n = ['0'] ↔ n = 0 := by
  refine ⟨fun h => ?_, fun h => h ▸ shortest_zero places⟩
  have hnumber := (canonical_shortest places n).number
  have hzero := (canonical_shortest places 0).number
  rw [if_neg (by omega), Int.natAbs_natCast, List.nil_append, h] at hnumber
  rw [if_neg (by omega), Int.natAbs_zero, List.nil_append, shortest_zero] at hzero
  simpa using hnumber.unique hzero

theorem trim_fixed (negative : Bool) (places n : Nat) :
    trim ((if negative then ['-'] else []) ++ fixed places n) =
      (if negative = true ∧ n ≠ 0 then ['-'] else []) ++ shortest places n := by
  have hwhole := Json.whole_toDigits (n / 10 ^ places)
  have htrimmed : dropEnd '.' (dropEnd '0' ((if negative then ['-'] else []) ++ fixed places n)) =
      (if negative then ['-'] else []) ++ shortest places n := by
    rw [dropEnd_fixed, dropEnd_point hwhole.toDigits (isDigit_fraction places n)]
    rfl
  have hstart : ∀ {c later}, shortest places n = c :: later → c.isDigit = true := by
    intro c later hshortest
    obtain ⟨d, digits, hdigits⟩ := List.exists_cons_of_ne_nil hwhole.nonempty
    rw [shortest, hdigits, List.cons_append, List.cons.injEq] at hshortest
    exact hshortest.1 ▸ hwhole.all d (hdigits ▸ List.mem_cons_self)
  have hne : shortest places n ≠ [] := fun h => hwhole.nonempty (List.append_eq_nil_iff.mp h).1
  unfold trim
  rw [htrimmed]
  cases negative with
  | false =>
    have hminus : shortest places n ≠ ['-', '0'] := fun h => absurd (hstart h) (by decide)
    simp [hminus, hne]
  | true =>
    by_cases hzero : n = 0
    · simp [hzero, shortest_zero]
    · have hnonzero : shortest places n ≠ ['0'] := mt shortest_eq_zero.mp hzero
      simp [hzero, hnonzero]

theorem exists_ofFloat (places : Nat) {x : Float} (hx : x.isFinite = true) :
    ∃ n : Int, Nearest (Binary64.exact x * 10 ^ places) n ∧
      ofFloat places x = (if n < 0 then ['-'] else []) ++ shortest places n.natAbs := by
  obtain ⟨negative, significand, exponent, hdecode, hexact⟩ := Binary64.exists_decode hx
  have hunits := nearest_units places significand exponent
  rw [ofFloat, hdecode, ofValue, trim_fixed, hexact]
  generalize units places significand exponent = count at hunits ⊢
  cases negative with
  | false => exact ⟨count, by simpa using hunits, by simp⟩
  | true =>
    refine ⟨-count, by simpa using hunits.neg, ?_⟩
    have hsign : (true = true ∧ count ≠ 0) ↔ ((-count : Int) < 0) := by
      simp only [true_and]
      omega
    rw [if_congr hsign rfl rfl, Int.natAbs_neg, Int.natAbs_natCast]

end Decimal

open Binary64 (exact)

/-- A finite number is written in hundredths, whatever its magnitude: there is one integer that its hundredths are
rounded to, its text is the canonical decimal of that many hundredths and of no other value, and just the numbers with
the same hundredths share that text. -/
theorem Sheet.num_canonical {v : Float} (hv : v.isFinite = true) :
    ∃ n : Int, (∀ m : Int, Nearest (exact v * 100) m ↔ m = n) ∧
      (∀ q : Rat, Decimal.Canonical 2 q (num v) ↔ q = n / 100) ∧
      ∀ w : Float, w.isFinite = true → (num w = num v ↔ Nearest (exact w * 100) n) := by
  have hhundred : (10 : Rat) ^ 2 = 100 := by norm_num
  have hwritten : ∀ {x : Float}, x.isFinite = true →
      ∃ n : Int, Nearest (exact x * 100) n ∧ Decimal.Canonical 2 (n / 100) (num x) ∧
        num x = (if n < 0 then ['-'] else []) ++ Decimal.shortest 2 n.natAbs := by
    intro x hx
    obtain ⟨n, hnearest, htext⟩ := Decimal.exists_ofFloat 2 hx
    have hcanonical := Decimal.canonical_shortest 2 n
    rw [← htext] at hcanonical
    rw [hhundred] at hnearest hcanonical
    exact ⟨n, hnearest, hcanonical, htext⟩
  obtain ⟨n, hn, hcanonical, htext⟩ := hwritten hv
  refine ⟨n, fun m => ⟨fun hm => hm.unique hn, fun hm => hm ▸ hn⟩,
    fun q => ⟨fun hq => ?_, fun hq => hq ▸ hcanonical⟩, fun w hw => ?_⟩
  · exact hq.number.unique hcanonical.number
  · obtain ⟨m, hm, hother, hothertext⟩ := hwritten hw
    constructor
    · intro hsame
      have hvalue := (hsame ▸ hother).number.unique hcanonical.number
      have hmn : m = n := by exact_mod_cast (div_left_inj' (by norm_num)).mp hvalue
      exact hmn ▸ hm
    · intro hnearest
      obtain rfl := hm.unique hnearest
      rw [hothertext, htext]

/-- A negative number that is rounded to zero shares the text of zero. -/
theorem Sheet.num_canonical_zero : Float.isFinite (-0.001) = true ∧
    ∃ n : Int, (∀ m : Int, Nearest (exact (-0.001) * 100) m ↔ m = n) ∧
      (∀ q : Rat, Decimal.Canonical 2 q ['0'] ↔ q = n / 100) ∧
      ∀ w : Float, w.isFinite = true → (num w = ['0'] ↔ Nearest (exact w * 100) n) := by
  have hfinite : Float.isFinite (-0.001) = true := by decide +kernel
  have htext : num (-0.001) = ['0'] := by decide +kernel
  have h := num_canonical hfinite
  rw [htext] at h
  exact ⟨hfinite, h⟩

end SequenceChart
