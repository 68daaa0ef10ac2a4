import Mathlib.Algebra.Order.Field.Rat
import SequenceChart.Number.Numeral
import SequenceChart.Proofs.Text

/-! The grammar of JSON: which texts are documents, and what value a document has. -/

namespace SequenceChart

/-- A string is a sequence of UTF-16 code units, for an escape may name one of them alone. A number is a
rational, however it is written. -/
inductive Json where
  | null
  | bool (b : Bool)
  | number (q : Rat)
  | string (units : List Nat)
  | array (elements : List Json)
  | object (members : List (List Nat × Json))

namespace Json

def charUnits (c : Char) : List Nat :=
  if c.toNat < 0x10000 then [c.toNat]
  else [0xD800 + (c.toNat - 0x10000) / 0x400, 0xDC00 + (c.toNat - 0x10000) % 0x400]

def textUnits (text : List Char) : List Nat := text.flatMap charUnits

def ofText (text : String) : Json := string (textUnits text.toList)

def isSpace (c : Char) : Bool := c = ' ' ∨ c = '\t' ∨ c = '\n' ∨ c = '\r'

def Spaces (text : List Char) : Prop := ∀ c ∈ text, isSpace c = true

def letterUnit? : Char → Option Nat
  | '"' => some 0x22
  | '\\' => some 0x5C
  | '/' => some 0x2F
  | 'b' => some 0x08
  | 'f' => some 0x0C
  | 'n' => some 0x0A
  | 'r' => some 0x0D
  | 't' => some 0x09
  | _ => none

def hexDigit? (c : Char) : Option Nat :=
  if '0' ≤ c ∧ c ≤ '9' then some (c.toNat - '0'.toNat)
  else if 'a' ≤ c ∧ c ≤ 'f' then some (c.toNat - 'a'.toNat + 10)
  else if 'A' ≤ c ∧ c ≤ 'F' then some (c.toNat - 'A'.toNat + 10)
  else none

def hexUnit? (a b c d : Char) : Option Nat := do
  some ((((← hexDigit? a) * 16 + (← hexDigit? b)) * 16 + (← hexDigit? c)) * 16 + (← hexDigit? d))

/-- A character that may stand in a string as it is. -/
def Plain (c : Char) : Prop := 0x20 ≤ c.toNat ∧ c ≠ '"' ∧ c ≠ '\\'

inductive Characters : List Nat → List Char → Prop
  | nil : Characters [] []
  | plain {c : Char} {units : List Nat} {later : List Char} :
      Plain c → Characters units later → Characters (charUnits c ++ units) (c :: later)
  | letter {c : Char} {unit : Nat} {units : List Nat} {later : List Char} :
      letterUnit? c = some unit → Characters units later → Characters (unit :: units) ('\\' :: c :: later)
  | hex {a b c d : Char} {unit : Nat} {units : List Nat} {later : List Char} :
      hexUnit? a b c d = some unit → Characters units later →
      Characters (unit :: units) ('\\' :: 'u' :: a :: b :: c :: d :: later)

structure Digits (text : List Char) : Prop where
  nonempty : text ≠ []
  all : ∀ c ∈ text, c.isDigit = true

/-- The digits before the point of a number: no zero stands before others. -/
structure Whole (text : List Char) : Prop extends Digits text where
  start : text.head? = some '0' → text = ['0']

inductive Fraction : List Char → List Char → Prop
  | none : Fraction [] []
  | some {digits : List Char} : Digits digits → Fraction digits ('.' :: digits)

inductive Sign : Int → List Char → Prop
  | none : Sign 1 []
  | plus : Sign 1 ['+']
  | minus : Sign (-1) ['-']

inductive Exponent : Int → List Char → Prop
  | none : Exponent 0 []
  | some {e : Char} {sign : Int} {mark digits : List Char} :
      e = 'e' ∨ e = 'E' → Sign sign mark → Digits digits →
      Exponent (sign * Numeral.digitsValue digits) (e :: (mark ++ digits))

/-- The value of decimal digits with a point between them and an exponent. -/
def decimal (whole fraction : List Char) (exponent : Int) : Rat :=
  Numeral.digitsValue (whole ++ fraction) * 10 ^ (exponent - fraction.length)

inductive Unsigned : Rat → List Char → Prop
  | mk {whole fraction fractionText exponentText : List Char} {exponent : Int} :
      Whole whole → Fraction fraction fractionText → Exponent exponent exponentText →
      Unsigned (decimal whole fraction exponent) (whole ++ (fractionText ++ exponentText))

inductive Number : Rat → List Char → Prop
  | unsigned {q : Rat} {text : List Char} : Unsigned q text → Number q text
  | negative {q : Rat} {text : List Char} : Unsigned q text → Number (-q) ('-' :: text)

inductive Phrase where
  | value (v : Json)
  /-- A value with the blanks around it. -/
  | element (v : Json)
  /-- What stands between brackets. -/
  | elements (vs : List Json)
  | member (name : List Nat) (v : Json)
  /-- What stands between braces. -/
  | members (ms : List (List Nat × Json))

inductive Spells : Phrase → List Char → Prop
  | null : Spells (.value null) ['n', 'u', 'l', 'l']
  | true : Spells (.value (bool Bool.true)) ['t', 'r', 'u', 'e']
  | false : Spells (.value (bool Bool.false)) ['f', 'a', 'l', 's', 'e']
  | number {q : Rat} {text : List Char} : Number q text → Spells (.value (number q)) text
  | string {units : List Nat} {text : List Char} :
      Characters units text → Spells (.value (string units)) ('"' :: (text ++ ['"']))
  | array {vs : List Json} {text : List Char} :
      Spells (.elements vs) text → Spells (.value (array vs)) ('[' :: (text ++ [']']))
  | object {ms : List (List Nat × Json)} {text : List Char} :
      Spells (.members ms) text → Spells (.value (object ms)) ('\x7b' :: (text ++ ['\x7d']))
  | element {v : Json} {before text after : List Char} :
      Spaces before → Spells (.value v) text → Spaces after → Spells (.element v) (before ++ (text ++ after))
  | noElements {blank : List Char} : Spaces blank → Spells (.elements []) blank
  | oneElement {v : Json} {text : List Char} : Spells (.element v) text → Spells (.elements [v]) text
  | moreElements {v w : Json} {vs : List Json} {text later : List Char} :
      Spells (.element v) text → Spells (.elements (w :: vs)) later →
      Spells (.elements (v :: w :: vs)) (text ++ ',' :: later)
  | member {name : List Nat} {v : Json} {before nameText after text : List Char} :
      Spaces before → Characters name nameText → Spaces after → Spells (.element v) text →
      Spells (.member name v) (before ++ '"' :: (nameText ++ '"' :: (after ++ ':' :: text)))
  | noMembers {blank : List Char} : Spaces blank → Spells (.members []) blank
  | oneMember {name : List Nat} {v : Json} {text : List Char} :
      Spells (.member name v) text → Spells (.members [(name, v)]) text
  | moreMembers {name : List Nat} {v : Json} {m : List Nat × Json} {ms : List (List Nat × Json)}
      {text later : List Char} :
      Spells (.member name v) text → Spells (.members (m :: ms)) later →
      Spells (.members ((name, v) :: m :: ms)) (text ++ ',' :: later)

theorem head?_toDigits (n : Nat) : (Nat.toDigits 10 n).head? = some '0' → Nat.toDigits 10 n = ['0'] := by
  induction n using Nat.strongRecOn with
  | ind n ih =>
    intro hzero
    rw [Nat.toDigits_eq_if (by decide)] at hzero ⊢
    split at hzero <;> rename_i hsmall
    · rw [if_pos hsmall]
      rw [List.head?_cons, Option.some.injEq] at hzero
      rw [hzero]
    · -- The digits in front would be a single zero, but they stand for a positive number.
      have hne : Nat.toDigits 10 (n / 10) ≠ [] := Nat.toDigits_ne_nil
      rw [List.head?_append_of_ne_nil _ hne] at hzero
      have hfront := ih (n / 10) (by omega) hzero
      have hvalue : Nat.ofDigitChars 10 (Nat.toDigits 10 (n / 10)) 0 = n / 10 :=
        Nat.ofDigitChars_toDigits (by decide) (by decide)
      rw [hfront] at hvalue
      have : n / 10 = 0 := hvalue.symm
      omega

theorem whole_toDigits (n : Nat) : Whole (Nat.toDigits 10 n) where
  nonempty := Nat.toDigits_ne_nil
  all _ hc := Nat.isDigit_of_mem_toDigits (by decide) (by decide) hc
  start := head?_toDigits n

/-- Whether a text is a document with this value. -/
def Document (v : Json) (text : List Char) : Prop := Spells (.element v) text

def Visible (c : Char) : Prop := 0x20 ≤ c.toNat ∨ isSpace c = true

instance (c : Char) : Decidable (Visible c) := inferInstanceAs (Decidable (_ ∨ _))

theorem visible_of_le {c d : Char} (hd : 0x20 ≤ d.toNat) (h : d ≤ c) : Visible c :=
  .inl (hd.trans h)

theorem visible_digits {text : List Char} (h : ∀ c ∈ text, c.isDigit = true) : ∀ c ∈ text, Visible c := by
  intro c hc
  have hdigit := h c hc
  simp only [Char.isDigit, Bool.and_eq_true, decide_eq_true_eq] at hdigit
  exact .inl (Nat.le_trans (by decide) hdigit.1)

theorem visible_hexDigit {c : Char} {n : Nat} (h : hexDigit? c = some n) : Visible c := by
  unfold hexDigit? at h
  split at h
  · exact visible_of_le (d := '0') (by decide) (by tauto)
  · split at h
    · exact visible_of_le (d := 'a') (by decide) (by tauto)
    · split at h
      · exact visible_of_le (d := 'A') (by decide) (by tauto)
      · contradiction

theorem visible_letter {c : Char} {n : Nat} (h : letterUnit? c = some n) : Visible c := by
  unfold letterUnit? at h
  split at h <;> first | contradiction | decide

theorem visible_characters {units : List Nat} {text : List Char} (h : Characters units text) :
    ∀ c ∈ text, Visible c := by
  induction h with
  | nil => exact nofun
  | plain hplain _ ih => exact List.forall_mem_cons.mpr ⟨.inl hplain.1, ih⟩
  | letter hunit _ ih =>
    exact List.forall_mem_cons.mpr ⟨by decide, List.forall_mem_cons.mpr ⟨visible_letter hunit, ih⟩⟩
  | hex hunit _ ih =>
    unfold hexUnit? at hunit
    simp only [Option.bind_eq_bind, Option.bind_eq_some_iff] at hunit
    obtain ⟨_, ha, _, hb, _, hc, _, hd, _⟩ := hunit
    simp only [List.forall_mem_cons]
    exact ⟨by decide, by decide, visible_hexDigit ha, visible_hexDigit hb, visible_hexDigit hc,
      visible_hexDigit hd, ih⟩

theorem visible_fraction {fraction text : List Char} (h : Fraction fraction text) : ∀ c ∈ text, Visible c := by
  cases h with
  | none => exact nofun
  | some hdigits => exact List.forall_mem_cons.mpr ⟨by decide, visible_digits hdigits.all⟩

theorem visible_exponent {exponent : Int} {text : List Char} (h : Exponent exponent text) :
    ∀ c ∈ text, Visible c := by
  cases h with
  | none => exact nofun
  | some he hsign hdigits =>
    refine List.forall_mem_cons.mpr ⟨by obtain rfl | rfl := he <;> decide, List.forall_mem_append.mpr ⟨?_, ?_⟩⟩
    · cases hsign <;> decide
    · exact visible_digits hdigits.all

theorem visible_number {q : Rat} {text : List Char} (h : Number q text) : ∀ c ∈ text, Visible c := by
  have hunsigned : ∀ {q text}, Unsigned q text → ∀ c ∈ text, Visible c := by
    rintro _ _ ⟨hwhole, hfraction, hexponent⟩
    simp only [List.forall_mem_append]
    exact ⟨visible_digits hwhole.all, visible_fraction hfraction, visible_exponent hexponent⟩
  cases h with
  | unsigned h => exact hunsigned h
  | negative h => exact List.forall_mem_cons.mpr ⟨by decide, hunsigned h⟩

theorem Spells.visible {p : Phrase} {text : List Char} (h : Spells p text) : ∀ c ∈ text, Visible c := by
  have hspaces : ∀ {blank}, Spaces blank → ∀ c ∈ blank, Visible c := fun hblank c hc => .inr (hblank c hc)
  induction h with
  | null => decide
  | true => decide
  | false => decide
  | number h => exact visible_number h
  | string h =>
    simp only [List.forall_mem_cons, List.forall_mem_append]
    exact ⟨by decide, visible_characters h, by decide, nofun⟩
  | array _ ih =>
    simp only [List.forall_mem_cons, List.forall_mem_append]
    exact ⟨by decide, ih, by decide, nofun⟩
  | object _ ih =>
    simp only [List.forall_mem_cons, List.forall_mem_append]
    exact ⟨by decide, ih, by decide, nofun⟩
  | element hbefore _ hafter ih =>
    simp only [List.forall_mem_append]
    exact ⟨hspaces hbefore, ih, hspaces hafter⟩
  | noElements hblank => exact hspaces hblank
  | oneElement _ ih => exact ih
  | moreElements _ _ ih ihlater =>
    simp only [List.forall_mem_cons, List.forall_mem_append]
    exact ⟨ih, by decide, ihlater⟩
  | member hbefore hname hafter _ ih =>
    simp only [List.forall_mem_cons, List.forall_mem_append]
    exact ⟨hspaces hbefore, by decide, visible_characters hname, by decide, hspaces hafter, by decide, ih⟩
  | noMembers hblank => exact hspaces hblank
  | oneMember _ ih => exact ih
  | moreMembers _ _ ih ihlater =>
    simp only [List.forall_mem_cons, List.forall_mem_append]
    exact ⟨ih, by decide, ihlater⟩

theorem charUnits_append_inj {c d : Char} {units others : List Nat}
    (h : charUnits c ++ units = charUnits d ++ others) : c = d ∧ units = others := by
  have hc := c.valid
  have hd := d.valid
  unfold UInt32.isValidChar Nat.isValidChar at hc hd
  have hcval : c.val.toNat = c.toNat := rfl
  have hdval : d.val.toNat = d.toNat := rfl
  rw [← Char.toNat_inj]
  unfold charUnits at h
  split at h <;> split at h <;>
    simp only [List.cons_append, List.nil_append, List.cons.injEq] at h
  · exact h
  · omega
  · omega
  · exact ⟨by omega, h.2.2⟩

theorem textUnits_inj {text other : List Char} (h : textUnits text = textUnits other) : text = other := by
  have hne : ∀ c, charUnits c ≠ [] := by
    intro c
    unfold charUnits
    split <;> exact List.cons_ne_nil _ _
  induction text generalizing other with
  | nil =>
    cases other with
    | nil => rfl
    | cons d other => exact absurd (List.append_eq_nil_iff.mp h.symm).1 (hne d)
  | cons c text ih =>
    cases other with
    | nil => exact absurd (List.append_eq_nil_iff.mp h).1 (hne c)
    | cons d other =>
      obtain ⟨rfl, hlater⟩ := charUnits_append_inj h
      rw [ih hlater]

theorem ofText_inj {text other : String} (h : ofText text = ofText other) : text = other :=
  String.toList_inj.mp (textUnits_inj (string.inj h))

end Json

end SequenceChart
