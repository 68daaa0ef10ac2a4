import Mathlib.Data.List.TakeWhile
import SequenceChart.Proofs.Json.Grammar

/-! Reading JSON back. The reader takes a value off the front of a text and does not look for faults; on a text
that the grammar derives it finds the value of the derivation, so a document has one value only. -/

namespace SequenceChart.Json

def skip (text : List Char) : List Char := text.dropWhile isSpace

def readCharacters : List Char → Option (List Nat × List Char)
  | [] => none
  | '"' :: rest => some ([], rest)
  | '\\' :: 'u' :: a :: b :: c :: d :: rest => do
    let unit ← hexUnit? a b c d
    let (units, rest) ← readCharacters rest
    some (unit :: units, rest)
  | '\\' :: c :: rest => do
    let unit ← letterUnit? c
    let (units, rest) ← readCharacters rest
    some (unit :: units, rest)
  | c :: rest => do
    let (units, rest) ← readCharacters rest
    some (charUnits c ++ units, rest)

def readDigits (text : List Char) : List Char × List Char :=
  (text.takeWhile Char.isDigit, text.dropWhile Char.isDigit)

def readFraction : List Char → List Char × List Char
  | '.' :: rest => readDigits rest
  | text => ([], text)

def readSign : List Char → Int × List Char
  | '+' :: rest => (1, rest)
  | '-' :: rest => (-1, rest)
  | text => (1, text)

def readExponent : List Char → Int × List Char
  | [] => (0, [])
  | c :: rest =>
    if c = 'e' ∨ c = 'E' then
      let (sign, rest) := readSign rest
      let (digits, rest) := readDigits rest
      (sign * Numeral.digitsValue digits, rest)
    else (0, c :: rest)

def readUnsigned (text : List Char) : Rat × List Char :=
  let (whole, rest) := readDigits text
  let (fraction, rest) := readFraction rest
  let (exponent, rest) := readExponent rest
  (decimal whole fraction exponent, rest)

def readNumber : List Char → Rat × List Char
  | '-' :: rest => let (q, rest) := readUnsigned rest; (-q, rest)
  | text => readUnsigned text

section Lists

variable {α : Type}

def readItems (item : List Char → Option (α × List Char)) : Nat → List Char → Option (List α × List Char)
  | 0, _ => none
  | fuel + 1, text => do
    let (a, rest) ← item text
    match rest with
    | ',' :: rest => do
      let (more, rest) ← readItems item fuel rest
      some (a :: more, rest)
    | rest => some ([a], rest.tail)

def readList (close : Char) (item : List Char → Option (α × List Char)) (fuel : Nat) (text : List Char) :
    Option (List α × List Char) :=
  if (skip text).head? = some close then some ([], (skip text).tail) else readItems item fuel text

end Lists

def readElement (value : List Char → Option (Json × List Char)) (text : List Char) :
    Option (Json × List Char) := do
  let (v, rest) ← value (skip text)
  some (v, skip rest)

def readMember (value : List Char → Option (Json × List Char)) (text : List Char) :
    Option ((List Nat × Json) × List Char) := do
  let (name, rest) ← readCharacters (skip text).tail
  let (v, rest) ← readElement value (skip rest).tail
  some ((name, v), rest)

/-- The value at the front of a text. The first character tells which kind it is of. -/
def readValue : Nat → List Char → Option (Json × List Char)
  | 0, _ => none
  | _ + 1, '"' :: rest => (readCharacters rest).map fun (units, rest) => (string units, rest)
  | fuel + 1, '[' :: rest =>
    (readList ']' (readElement (readValue fuel)) fuel rest).map fun (vs, rest) => (array vs, rest)
  | fuel + 1, '\x7b' :: rest =>
    (readList '\x7d' (readMember (readValue fuel)) fuel rest).map fun (ms, rest) => (object ms, rest)
  | _ + 1, 'n' :: rest => some (null, rest.drop 3)
  | _ + 1, 't' :: rest => some (bool true, rest.drop 3)
  | _ + 1, 'f' :: rest => some (bool false, rest.drop 4)
  | _ + 1, text => let (q, rest) := readNumber text; some (number q, rest)

def Ends (rest : List Char) : Prop :=
  ∀ c ∈ rest.head?, c.isDigit = false ∧ c ≠ '.' ∧ c ≠ 'e' ∧ c ≠ 'E'

def Closes (rest : List Char) : Prop := ∀ c ∈ rest.head?, c = ',' ∨ c = ']' ∨ c = '\x7d'

theorem isSpace_iff {c : Char} : isSpace c = true ↔ c = ' ' ∨ c = '\t' ∨ c = '\n' ∨ c = '\r' := by
  simp [isSpace]

theorem Closes.ends {rest : List Char} (h : Closes rest) : Ends rest := by
  intro c hc
  obtain rfl | rfl | rfl := h c hc <;> decide

theorem Closes.ends_append {rest blank : List Char} (h : Closes rest) (hblank : Spaces blank) :
    Ends (blank ++ rest) := by
  cases blank with
  | nil => exact h.ends
  | cons c blank =>
    intro d hd
    obtain rfl : c = d := Option.some.inj hd
    obtain rfl | rfl | rfl | rfl := isSpace_iff.mp (hblank c List.mem_cons_self) <;> decide

theorem skip_append {blank : List Char} (h : Spaces blank) (rest : List Char) :
    skip (blank ++ rest) = skip rest :=
  List.dropWhile_append_of_pos h

theorem skip_cons {c : Char} (h : isSpace c = false) (rest : List Char) : skip (c :: rest) = c :: rest :=
  List.dropWhile_cons_of_neg (Bool.not_eq_true _ ▸ h)

theorem Closes.skip {rest : List Char} (h : Closes rest) : skip rest = rest := by
  cases rest with
  | nil => rfl
  | cons c rest => exact skip_cons (by obtain rfl | rfl | rfl := h c rfl <;> decide) rest

theorem readCharacters_append {units : List Nat} {text : List Char} (h : Characters units text)
    (rest : List Char) : readCharacters (text ++ '"' :: rest) = some (units, rest) := by
  induction h with
  | nil => rfl
  | @plain c units later hplain _ ih =>
    obtain ⟨_, hquote, hslash⟩ := hplain
    rw [List.cons_append, readCharacters, ih]
    · rfl
    · exact hquote
    all_goals
      intros
      exact hslash ‹_›
  | @letter c unit units later hunit _ ih =>
    rw [List.cons_append, List.cons_append, readCharacters, hunit, ih]
    · rfl
    · rintro a b d e more rfl
      contradiction
  | hex hunit _ ih =>
    simp only [List.cons_append, readCharacters, hunit, ih]
    rfl

theorem readDigits_append {digits : List Char} (h : ∀ c ∈ digits, c.isDigit = true) {rest : List Char}
    (hrest : ∀ c ∈ rest.head?, c.isDigit = false) : readDigits (digits ++ rest) = (digits, rest) := by
  have hdrop : rest.dropWhile Char.isDigit = rest := by
    cases rest with
    | nil => rfl
    | cons c rest => exact List.dropWhile_cons_of_neg (Bool.not_eq_true _ ▸ hrest c rfl)
  have htake : rest.takeWhile Char.isDigit = [] := by
    cases rest with
    | nil => rfl
    | cons c rest => exact List.takeWhile_cons_of_neg (Bool.not_eq_true _ ▸ hrest c rfl)
  rw [readDigits, List.takeWhile_append_of_pos h, List.dropWhile_append_of_pos h, hdrop, htake, List.append_nil]

theorem readSign_append {sign : Int} {mark digits : List Char} (h : Sign sign mark) (hdigits : Digits digits)
    (rest : List Char) : readSign (mark ++ (digits ++ rest)) = (sign, digits ++ rest) := by
  cases h with
  | plus => rfl
  | minus => rfl
  | none =>
    obtain ⟨c, digits, rfl⟩ := List.exists_cons_of_ne_nil hdigits.nonempty
    have hc := hdigits.all c List.mem_cons_self
    rw [List.nil_append, List.cons_append, readSign]
    all_goals
      rintro later ⟨⟩
      contradiction

theorem readExponent_append {exponent : Int} {text rest : List Char} (h : Exponent exponent text)
    (hrest : Ends rest) : readExponent (text ++ rest) = (exponent, rest) := by
  cases h with
  | none =>
    cases rest with
    | nil => rfl
    | cons c rest =>
      obtain ⟨_, _, hlower, hupper⟩ := hrest c rfl
      rw [List.nil_append, readExponent, if_neg (not_or.mpr ⟨hlower, hupper⟩)]
  | some he hsign hdigits =>
    rw [List.cons_append, readExponent, if_pos he, List.append_assoc, readSign_append hsign hdigits]
    dsimp only
    rw [readDigits_append hdigits.all fun c hc => (hrest c hc).1]

theorem head?_exponent {exponent : Int} {text rest : List Char} (h : Exponent exponent text) (hrest : Ends rest) :
    ∀ c ∈ (text ++ rest).head?, c.isDigit = false ∧ c ≠ '.' := by
  intro c hc
  cases h with
  | none => exact ⟨(hrest c hc).1, (hrest c hc).2.1⟩
  | some he =>
    obtain rfl := Option.some.inj hc
    obtain rfl | rfl := he <;> decide

theorem readFraction_append {fraction text rest : List Char} (h : Fraction fraction text)
    (hrest : ∀ c ∈ rest.head?, c.isDigit = false ∧ c ≠ '.') :
    readFraction (text ++ rest) = (fraction, rest) := by
  cases h with
  | none =>
    cases rest with
    | nil => rfl
    | cons c rest =>
      rw [List.nil_append, readFraction]
      rintro later ⟨⟩
      exact absurd rfl (hrest '.' rfl).2
  | some hdigits =>
    rw [List.cons_append, readFraction, readDigits_append hdigits.all fun c hc => (hrest c hc).1]

theorem readUnsigned_append {q : Rat} {text rest : List Char} (h : Unsigned q text) (hrest : Ends rest) :
    readUnsigned (text ++ rest) = (q, rest) := by
  obtain ⟨hwhole, hfraction, hexponent⟩ := h
  rename_i whole fraction fractionText exponentText exponent
  have hafter := head?_exponent hexponent hrest
  have hpoint : ∀ c ∈ (fractionText ++ (exponentText ++ rest)).head?, c.isDigit = false := by
    cases hfraction with
    | none => exact fun c hc => (hafter c hc).1
    | some => exact fun c hc => Option.some.inj hc ▸ rfl
  rw [readUnsigned, List.append_assoc, List.append_assoc, readDigits_append hwhole.all hpoint]
  dsimp only
  rw [readFraction_append hfraction hafter]
  dsimp only
  rw [readExponent_append hexponent hrest]

theorem exists_digit {q : Rat} {text : List Char} (h : Unsigned q text) :
    ∃ c later, text = c :: later ∧ c.isDigit = true := by
  obtain ⟨hwhole, _, _⟩ := h
  obtain ⟨c, digits, rfl⟩ := List.exists_cons_of_ne_nil hwhole.nonempty
  exact ⟨c, _, rfl, hwhole.all c List.mem_cons_self⟩

theorem readNumber_append {q : Rat} {text rest : List Char} (h : Number q text) (hrest : Ends rest) :
    readNumber (text ++ rest) = (q, rest) := by
  cases h with
  | unsigned h =>
    obtain ⟨c, later, rfl, hc⟩ := exists_digit h
    rw [List.cons_append, readNumber, ← List.cons_append, readUnsigned_append h hrest]
    rintro more ⟨⟩
    contradiction
  | negative h =>
    rw [List.cons_append, readNumber, readUnsigned_append h hrest]

def Phrase.Filled : Phrase → Prop
  | .elements vs => vs ≠ []
  | .members ms => ms ≠ []
  | _ => True

/-- A character that can neither be skipped nor close anything. -/
structure Leads (c : Char) : Prop where
  space : isSpace c = false
  bracket : c ≠ ']'
  brace : c ≠ '\x7d'

instance (c : Char) : Decidable (Leads c) :=
  decidable_of_iff (isSpace c = false ∧ c ≠ ']' ∧ c ≠ '\x7d') ⟨fun h => ⟨h.1, h.2.1, h.2.2⟩, fun h => ⟨h.1, h.2, h.3⟩⟩

def Starts (text : List Char) : Prop := ∃ c ∈ (skip text).head?, Leads c

theorem starts_append {blank : List Char} (hblank : Spaces blank) {c : Char} (hc : Leads c) (later : List Char) :
    Starts (blank ++ c :: later) := by
  refine ⟨c, ?_, hc⟩
  rw [skip_append hblank, skip_cons hc.space]
  rfl

theorem Starts.append {text : List Char} (h : Starts text) (later : List Char) : Starts (text ++ later) := by
  obtain ⟨c, hc, hleads⟩ := h
  refine ⟨c, ?_, hleads⟩
  unfold skip at hc ⊢
  rw [List.dropWhile_append, if_neg]
  · rw [List.head?_append, Option.mem_def.mp hc]
    rfl
  · rintro hempty
    rw [List.isEmpty_iff.mp hempty] at hc
    contradiction

theorem leads_digit {c : Char} (h : c.isDigit = true) : Leads c := by
  refine ⟨Bool.eq_false_iff.mpr fun hspace => ?_, ?_, ?_⟩
  · obtain rfl | rfl | rfl | rfl := isSpace_iff.mp hspace <;> contradiction
  · rintro rfl
    contradiction
  · rintro rfl
    contradiction

theorem exists_leads {v : Json} {text : List Char} (h : Spells (.value v) text) :
    ∃ c later, text = c :: later ∧ Leads c := by
  cases h with
  | number h =>
    cases h with
    | unsigned h =>
      obtain ⟨c, later, rfl, hc⟩ := exists_digit h
      exact ⟨c, later, rfl, leads_digit hc⟩
    | negative => exact ⟨'-', _, rfl, by decide⟩
  | _ => exact ⟨_, _, rfl, by decide⟩

theorem Spells.starts {p : Phrase} {text : List Char} (h : Spells p text) (hp : p.Filled) : Starts text := by
  induction h with
  | element hbefore hvalue =>
    obtain ⟨c, later, rfl, hc⟩ := exists_leads hvalue
    exact starts_append hbefore hc _
  | member hbefore => exact starts_append hbefore (by decide) _
  | noElements => exact absurd rfl hp
  | noMembers => exact absurd rfl hp
  | oneElement _ ih => exact ih trivial
  | oneMember _ ih => exact ih trivial
  | moreElements _ _ ih _ => exact (ih trivial).append _
  | moreMembers _ _ ih _ => exact (ih trivial).append _
  | number h =>
    obtain ⟨c, later, rfl, hc⟩ := exists_leads (.number h)
    exact starts_append (List.forall_mem_nil _) hc later
  | _ => exact starts_append (List.forall_mem_nil _) (by decide) _

section Lists

variable {α : Type} {item : List Char → Option (α × List Char)} {a : α} {text rest : List Char}

theorem readItems_last {close : Char} (hclose : close ≠ ',')
    (h : item (text ++ close :: rest) = some (a, close :: rest)) (fuel : Nat) :
    readItems item (fuel + 1) (text ++ close :: rest) = some ([a], rest) := by
  rw [readItems, h]
  dsimp only [bind, Option.bind]
  split
  · rename_i heq
    exact absurd (List.cons_eq_cons.mp heq).1 hclose
  · rfl

theorem readItems_cons {more : List α} {later : List Char} {fuel : Nat}
    (h : item (text ++ ',' :: later) = some (a, ',' :: later))
    (hlater : readItems item fuel later = some (more, rest)) :
    readItems item (fuel + 1) (text ++ ',' :: later) = some (a :: more, rest) := by
  simp only [readItems, h, hlater, Option.bind_eq_bind, Option.bind_some]

theorem readList_nil {close : Char} {blank : List Char} (hblank : Spaces blank) (hclose : isSpace close = false)
    (fuel : Nat) : readList close item fuel (blank ++ close :: rest) = some ([], rest) := by
  rw [readList, skip_append hblank, skip_cons hclose, List.head?_cons, if_pos rfl, List.tail_cons]

theorem readList_of_starts {close : Char} (hclose : close = ']' ∨ close = '\x7d') (h : Starts text)
    (fuel : Nat) : readList close item fuel text = readItems item fuel text := by
  obtain ⟨c, hc, hleads⟩ := h
  rw [readList, if_neg]
  rw [Option.mem_def.mp hc]
  rintro ⟨⟩
  exact hclose.elim hleads.bracket hleads.brace

variable {read : Nat → List Char → Option (α × List Char)}

theorem reads_last {close : Char} (hclose : close = ']' ∨ close = '\x7d') (hstart : Starts text)
    (h : ∃ n, ∀ fuel ≥ n, read fuel (text ++ close :: rest) = some (a, close :: rest)) :
    ∃ n, ∀ fuel ≥ n, ∀ m ≥ n, readList close (read fuel) m (text ++ close :: rest) = some ([a], rest) := by
  obtain ⟨n, hn⟩ := h
  refine ⟨n + 1, fun fuel hfuel m hm => ?_⟩
  obtain ⟨m, rfl⟩ := Nat.exists_eq_add_of_le' (Nat.le_of_add_left_le hm)
  have hcomma : close ≠ ',' := by
    obtain rfl | rfl := hclose <;> decide
  rw [readList_of_starts hclose (hstart.append _)]
  exact readItems_last hcomma (hn fuel (by omega)) m

theorem reads_cons {close : Char} {more : List α} {later : List Char} (hclose : close = ']' ∨ close = '\x7d')
    (hstart : Starts text) (h : ∃ n, ∀ fuel ≥ n, read fuel (text ++ ',' :: later) = some (a, ',' :: later))
    (hstartLater : Starts later)
    (hlater : ∃ n, ∀ fuel ≥ n, ∀ m ≥ n, readList close (read fuel) m later = some (more, rest)) :
    ∃ n, ∀ fuel ≥ n, ∀ m ≥ n, readList close (read fuel) m (text ++ ',' :: later) = some (a :: more, rest) := by
  obtain ⟨n, hn⟩ := h
  obtain ⟨k, hk⟩ := hlater
  refine ⟨n + k + 1, fun fuel hfuel m hm => ?_⟩
  obtain ⟨m, rfl⟩ := Nat.exists_eq_add_of_le' (Nat.le_of_add_left_le hm)
  have hrest := hk fuel (by omega) m (by omega)
  rw [readList_of_starts hclose hstartLater] at hrest
  rw [readList_of_starts hclose (hstart.append _)]
  exact readItems_cons (hn fuel (by omega)) hrest

end Lists

/-- Whether a phrase is read back from its text, whatever follows it, once there is enough fuel. -/
def Reads : Phrase → List Char → Prop
  | .value v, text =>
    ∀ rest, Ends rest → ∃ n, ∀ fuel ≥ n, readValue fuel (text ++ rest) = some (v, rest)
  | .element v, text =>
    ∀ rest, Closes rest → ∃ n, ∀ fuel ≥ n, readElement (readValue fuel) (text ++ rest) = some (v, rest)
  | .elements vs, text =>
    ∀ rest, ∃ n, ∀ fuel ≥ n, ∀ m ≥ n,
      readList ']' (readElement (readValue fuel)) m (text ++ ']' :: rest) = some (vs, rest)
  | .member name v, text =>
    ∀ rest, Closes rest → ∃ n, ∀ fuel ≥ n,
      readMember (readValue fuel) (text ++ rest) = some ((name, v), rest)
  | .members ms, text =>
    ∀ rest, ∃ n, ∀ fuel ≥ n, ∀ m ≥ n,
      readList '\x7d' (readMember (readValue fuel)) m (text ++ '\x7d' :: rest) = some (ms, rest)

theorem closes_cons {c : Char} (h : c = ',' ∨ c = ']' ∨ c = '\x7d') (rest : List Char) : Closes (c :: rest) := by
  rintro d ⟨⟩
  exact h

theorem reads_number {q : Rat} {text : List Char} (h : Number q text) : Reads (.value (number q)) text := by
  intro rest hrest
  refine ⟨1, fun fuel hfuel => ?_⟩
  obtain ⟨fuel, rfl⟩ := Nat.exists_eq_add_of_le' hfuel
  have hread := readNumber_append h hrest
  -- No other kind of value starts as a number does.
  have hstart : ∃ c later, text = c :: later ∧ (c.isDigit = true ∨ c = '-') := by
    cases h with
    | negative => exact ⟨_, _, rfl, .inr rfl⟩
    | unsigned h =>
      obtain ⟨c, later, htext, hc⟩ := exists_digit h
      exact ⟨c, later, htext, .inl hc⟩
  obtain ⟨c, later, rfl, hc⟩ := hstart
  rw [List.cons_append] at hread ⊢
  rw [readValue, hread]
  all_goals
    rintro more ⟨⟩
    revert hc
    decide

theorem reads_element {v : Json} {before text after : List Char} (hbefore : Spaces before)
    (hvalue : Spells (.value v) text) (h : Reads (.value v) text) (hafter : Spaces after) :
    Reads (.element v) (before ++ (text ++ after)) := by
  intro rest hrest
  obtain ⟨n, hn⟩ := h (after ++ rest) (hrest.ends_append hafter)
  obtain ⟨c, later, rfl, hc⟩ := exists_leads hvalue
  refine ⟨n, fun fuel hfuel => ?_⟩
  have hread := hn fuel hfuel
  rw [List.cons_append] at hread
  rw [List.append_assoc, List.append_assoc, readElement, skip_append hbefore, List.cons_append,
    skip_cons hc.space, hread]
  dsimp only [bind, Option.bind]
  rw [skip_append hafter, hrest.skip]

theorem reads_member {name : List Nat} {v : Json} {before nameText after text : List Char}
    (hbefore : Spaces before) (hname : Characters name nameText) (hafter : Spaces after)
    (h : Reads (.element v) text) :
    Reads (.member name v) (before ++ '"' :: (nameText ++ '"' :: (after ++ ':' :: text))) := by
  intro rest hrest
  obtain ⟨n, hn⟩ := h rest hrest
  refine ⟨n, fun fuel hfuel => ?_⟩
  simp only [List.append_assoc, List.cons_append, readMember, skip_append hbefore,
    skip_cons (show isSpace '"' = false by decide), List.tail_cons, readCharacters_append hname,
    skip_append hafter, skip_cons (show isSpace ':' = false by decide), hn fuel hfuel, Option.bind_eq_bind,
    Option.bind_some]

theorem Spells.reads {p : Phrase} {text : List Char} (h : Spells p text) : Reads p text := by
  induction h with
  | null => exact fun rest _ => ⟨1, fun fuel hfuel => by obtain ⟨_, rfl⟩ := Nat.exists_eq_add_of_le' hfuel; rfl⟩
  | true => exact fun rest _ => ⟨1, fun fuel hfuel => by obtain ⟨_, rfl⟩ := Nat.exists_eq_add_of_le' hfuel; rfl⟩
  | false => exact fun rest _ => ⟨1, fun fuel hfuel => by obtain ⟨_, rfl⟩ := Nat.exists_eq_add_of_le' hfuel; rfl⟩
  | number h => exact reads_number h
  | string h =>
    intro rest _
    refine ⟨1, fun fuel hfuel => ?_⟩
    obtain ⟨fuel, rfl⟩ := Nat.exists_eq_add_of_le' hfuel
    rw [List.cons_append, List.append_assoc, List.singleton_append, readValue, readCharacters_append h]
    rfl
  | array _ ih =>
    intro rest _
    obtain ⟨n, hn⟩ := ih rest
    refine ⟨n + 1, fun fuel hfuel => ?_⟩
    obtain ⟨fuel, rfl⟩ := Nat.exists_eq_add_of_le' (Nat.le_of_add_left_le hfuel)
    have hlarge : fuel ≥ n := by omega
    rw [List.cons_append, List.append_assoc, List.singleton_append, readValue, hn fuel hlarge fuel hlarge]
    rfl
  | object _ ih =>
    intro rest _
    obtain ⟨n, hn⟩ := ih rest
    refine ⟨n + 1, fun fuel hfuel => ?_⟩
    obtain ⟨fuel, rfl⟩ := Nat.exists_eq_add_of_le' (Nat.le_of_add_left_le hfuel)
    have hlarge : fuel ≥ n := by omega
    rw [List.cons_append, List.append_assoc, List.singleton_append, readValue, hn fuel hlarge fuel hlarge]
    rfl
  | element hbefore hvalue hafter ih => exact reads_element hbefore hvalue ih hafter
  | member hbefore hname hafter _ ih => exact reads_member hbefore hname hafter ih
  | noElements hblank => exact fun rest => ⟨0, fun fuel _ m _ => readList_nil hblank (by decide) m⟩
  | noMembers hblank => exact fun rest => ⟨0, fun fuel _ m _ => readList_nil hblank (by decide) m⟩
  | oneElement helement ih =>
    exact fun rest => reads_last (.inl rfl) (helement.starts trivial) (ih _ (closes_cons (.inr (.inl rfl)) rest))
  | oneMember hmember ih =>
    exact fun rest => reads_last (.inr rfl) (hmember.starts trivial) (ih _ (closes_cons (.inr (.inr rfl)) rest))
  | moreElements helement hlater ih ihlater =>
    intro rest
    rw [List.append_assoc, List.cons_append]
    exact reads_cons (.inl rfl) (helement.starts trivial) (ih _ (closes_cons (.inl rfl) _))
      ((hlater.starts (List.cons_ne_nil _ _)).append _) (ihlater rest)
  | moreMembers hmember hlater ih ihlater =>
    intro rest
    rw [List.append_assoc, List.cons_append]
    exact reads_cons (.inr rfl) (hmember.starts trivial) (ih _ (closes_cons (.inl rfl) _))
      ((hlater.starts (List.cons_ne_nil _ _)).append _) (ihlater rest)

/-- A document has one value. -/
theorem Document.unique {v w : Json} {text : List Char} (hv : Document v text) (hw : Document w text) : v = w := by
  have hend : Closes [] := nofun
  obtain ⟨n, hn⟩ := Spells.reads hv [] hend
  obtain ⟨k, hk⟩ := Spells.reads hw [] hend
  have hfirst := hn (n + k) (by omega)
  rw [hk (n + k) (by omega)] at hfirst
  exact (Prod.mk.inj (Option.some.inj hfirst)).1.symm

end SequenceChart.Json
