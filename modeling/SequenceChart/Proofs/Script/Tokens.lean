import SequenceChart.Proofs.Text

/-! Tokens written as text. A blank is put between two tokens only where the second one would otherwise be
read with the first; tokens that are written this way are read back one by one. -/

namespace SequenceChart

namespace Escape

theorem encode_append (text later : List Char) : encode (text ++ later) = encode text ++ encode later := by
  induction text with
  | nil => rfl
  | cons c text ih =>
    simp only [List.cons_append, encode, ih]
    split
    · rfl
    · split <;> rfl

theorem encode_singleton (c : Char) :
    encode [c] = if c = '\\' then ['\\', '\\'] else if c = '\n' then ['\\', 'n'] else [c] := rfl

@[simp] theorem decode_encode (text : List Char) : decode (encode text) = .ok text := by
  induction text with
  | nil => rfl
  | cons c text ih =>
    unfold encode
    by_cases hslash : c = '\\'
    · rw [if_pos hslash, decode, ih, hslash]
      rfl
    · rw [if_neg hslash]
      by_cases hfeed : c = '\n'
      · rw [if_pos hfeed, decode, ih, hfeed]
        rfl
      · rw [if_neg hfeed, decode, ih]
        · rfl
        all_goals
          intro
          intros
          exact hslash ‹_›

theorem lineFeed_not_mem_encode (text : List Char) : '\n' ∉ encode text := by
  induction text with
  | nil => exact List.not_mem_nil
  | cons c text ih =>
    unfold encode
    split
    · simp [ih]
    · split
      · simp [ih]
      · simp [ih, Ne.symm ‹_›]

/-- The text starts and ends with no blank but a line feed, which has a written form of its own. -/
structure Framed (text : List Char) : Prop where
  first : ∀ c ∈ text.head?, Text.isBlank c = true → c = '\n'
  last : ∀ c ∈ text.getLast?, Text.isBlank c = true → c = '\n'

instance (text : List Char) : Decidable (Framed text) :=
  decidable_of_iff ((∀ c ∈ text.head?, Text.isBlank c = true → c = '\n') ∧
    ∀ c ∈ text.getLast?, Text.isBlank c = true → c = '\n')
    ⟨fun h => ⟨h.1, h.2⟩, fun h => ⟨h.first, h.last⟩⟩

theorem trimmed_encode_singleton {c : Char} (h : Text.isBlank c = true → c = '\n') :
    Text.Trimmed (encode [c]) := by
  have hslash : Text.isBlank '\\' = false := by decide
  have hn : Text.isBlank 'n' = false := by decide
  rw [encode_singleton]
  by_cases hc : c = '\\'
  · rw [if_pos hc]
    constructor <;> simp [hslash]
  · rw [if_neg hc]
    by_cases hfeed : c = '\n'
    · rw [if_pos hfeed]
      constructor <;> simp [hslash, hn]
    · rw [if_neg hfeed]
      have hblank : Text.isBlank c = false := Bool.eq_false_iff.mpr fun hblank => hfeed (h hblank)
      constructor <;> simp [hblank]

theorem encode_singleton_ne_nil (c : Char) : encode [c] ≠ [] := by
  rw [encode_singleton]
  split
  · exact List.cons_ne_nil _ _
  · split <;> exact List.cons_ne_nil _ _

theorem trimmed_encode {text : List Char} (h : Framed text) : Text.Trimmed (encode text) := by
  constructor
  · cases text with
    | nil => exact nofun
    | cons c rest =>
      have hc := (trimmed_encode_singleton (h.first c rfl)).first
      rwa [← List.singleton_append, encode_append, List.head?_append_of_ne_nil _ (encode_singleton_ne_nil c)]
  · cases hlast : text.getLast? with
    | none =>
      obtain rfl := List.getLast?_eq_none_iff.mp hlast
      exact nofun
    | some c =>
      obtain ⟨before, rfl⟩ := List.getLast?_eq_some_iff.mp hlast
      have hc := (trimmed_encode_singleton (h.last c hlast)).last
      rwa [encode_append, List.getLast?_append_of_ne_nil _ (encode_singleton_ne_nil c)]

end Escape

namespace Token

def written : Token → List Char
  | keyword k => k.text.toList
  | dash => ['-']
  | doubleDash => ['-', '-']
  | dot => ['.']
  | equal => ['=']
  | comma => [',']
  | gt => ['>']
  | doubleGt => ['>', '>']
  | slashGt => ['/', '>']
  | backslashGt => ['\\', '>']
  | message text => ':' :: Text.spaced (Escape.encode text.toList)
  | ident name => name.toList

/-- Whether a character right behind the token is read with it. -/
def absorbs : Token → Char → Bool
  | dash, c => c == '-'
  | gt, c => c == '>'
  | keyword _, c => isNameChar c
  | ident _, c => isNameChar c
  | _, _ => false

def apart (t : Token) (text : List Char) : List Char :=
  if text.head?.any t.absorbs then ' ' :: text else text

def writeAll : List Token → List Char
  | [] => []
  | t :: later => t.written ++ t.apart (writeAll later)

structure IsName (name : String) : Prop where
  nonempty : name ≠ ""
  chars : ∀ c ∈ name.toList, isNameChar c = true
  fresh : Keyword.ofWord? name = none

instance (name : String) : Decidable (IsName name) :=
  decidable_of_iff (name ≠ "" ∧ (∀ c ∈ name.toList, isNameChar c = true) ∧ Keyword.ofWord? name = none)
    ⟨fun h => ⟨h.1, h.2.1, h.2.2⟩, fun h => ⟨h.nonempty, h.chars, h.fresh⟩⟩

def Plain : Token → Prop
  | message _ => False
  | ident name => IsName name
  | _ => True

/-- Tokens that a line can hold. Only its last token is a message. -/
inductive Line : List Token → Prop
  | nil : Line []
  | message {text : String} : Escape.Framed text.toList → Line [message text]
  | cons {t : Token} {later : List Token} : t.Plain → Line later → Line (t :: later)

theorem Line.append {tokens later : List Token} (h : ∀ t ∈ tokens, t.Plain) (hlater : Line later) :
    Line (tokens ++ later) := by
  induction tokens with
  | nil => exact hlater
  | cons t tokens ih =>
    have hall := List.forall_mem_cons.mp h
    exact .cons hall.1 (ih hall.2)

theorem isNameChar_text (k : Keyword) : ∀ c ∈ k.text.toList, isNameChar c = true := by
  cases k <;> decide +kernel

theorem ofWord_text (k : Keyword) : ofWord k.text = keyword k := by
  rw [ofWord, Keyword.ofWord?_text]

theorem ofWord_of_isName {name : String} (h : IsName name) : ofWord name = ident name := by
  rw [ofWord, h.fresh]

theorem toList_ne_nil_of_isName {name : String} (h : IsName name) : name.toList ≠ [] :=
  mt String.toList_eq_nil_iff.mp h.nonempty

theorem operator?_of_isNameChar {c : Char} (h : isNameChar c = true) (rest : List Char) :
    operator? (c :: rest) = none := by
  unfold operator?
  split <;> first | rfl | (rename_i heq; cases heq; exact absurd h (by decide +kernel))

theorem next?_run {run rest : List Char} (hne : run ≠ []) (hrun : ∀ c ∈ run, isNameChar c = true)
    (hrest : ∀ c ∈ rest.head?, isNameChar c = false) :
    next? (run ++ rest) = some (ofWord (String.ofList run), rest) := by
  have hdrop : (run ++ rest).dropWhile isNameChar = rest := by
    rw [List.dropWhile_append_of_pos hrun, Text.dropWhile_of_head hrest]
  have htake : (run ++ rest).takeWhile isNameChar = run := by
    have hsplit := List.takeWhile_append_dropWhile (p := isNameChar) (l := run ++ rest)
    rw [hdrop] at hsplit
    exact List.append_cancel_right hsplit
  obtain ⟨c, later, rfl⟩ := List.exists_cons_of_ne_nil hne
  unfold next? word?
  rw [htake, hdrop, List.cons_append, operator?_of_isNameChar (hrun c List.mem_cons_self)]

theorem next?_written {t : Token} (h : t.Plain) {rest : List Char}
    (hrest : ∀ c ∈ rest.head?, t.absorbs c = false) : next? (t.written ++ rest) = some (t, rest) := by
  cases t with
  | message => contradiction
  | keyword k =>
    have hne : k.text.toList ≠ [] := by cases k <;> decide
    have hnext := next?_run hne (isNameChar_text k) hrest
    rwa [String.ofList_toList, ofWord_text] at hnext
  | ident name =>
    have hnext := next?_run (toList_ne_nil_of_isName h) h.chars hrest
    rwa [String.ofList_toList, ofWord_of_isName h] at hnext
  | dash =>
    cases rest with
    | nil => rfl
    | cons c rest =>
      have hc : c ≠ '-' := fun hc => absurd (hrest c rfl) (by simp [absorbs, hc])
      simp [written, next?, operator?, hc]
  | gt =>
    cases rest with
    | nil => rfl
    | cons c rest =>
      have hc : c ≠ '>' := fun hc => absurd (hrest c rfl) (by simp [absorbs, hc])
      simp [written, next?, operator?, hc]
  | doubleDash => rfl
  | dot => rfl
  | equal => rfl
  | comma => rfl
  | doubleGt => rfl
  | slashGt => rfl
  | backslashGt => rfl

theorem isBlank_of_isNameChar {c : Char} (h : isNameChar c = true) : Text.isBlank c = false ∧ c ≠ '#' ∧ c ≠ ':' := by
  refine ⟨not_isBlank_of_isNameChar h, ?_, ?_⟩
  · rintro rfl
    exact absurd h (by decide +kernel)
  · rintro rfl
    exact absurd h (by decide +kernel)

theorem isBlank_written {t : Token} (h : t.Plain) :
    ∀ c ∈ t.written, Text.isBlank c = false ∧ c ≠ '#' ∧ c ≠ ':' := by
  cases t with
  | message => exact False.elim h
  | keyword k => exact fun c hc => isBlank_of_isNameChar (isNameChar_text k c hc)
  | ident name => exact fun c hc => isBlank_of_isNameChar (h.chars c hc)
  | _ => decide

theorem written_ne_nil {t : Token} (h : t.Plain) : t.written ≠ [] := by
  cases t with
  | message => contradiction
  | keyword k => cases k <;> decide
  | ident name => exact toList_ne_nil_of_isName h
  | _ => exact List.cons_ne_nil _ _

theorem trimmed_written {t : Token} (h : t.Plain) : Text.Trimmed t.written :=
  Text.trimmed_of_forall fun c hc => (isBlank_written h c hc).1

theorem trimmed_message {text : String} (h : Escape.Framed text.toList) :
    Text.Trimmed (message text).written := by
  have hcolon : Text.Trimmed [':'] := Text.trimmed_of_forall (by decide)
  exact Text.trimmed_append_spaced hcolon (Escape.trimmed_encode h) (List.cons_ne_nil _ _)

theorem writeAll_ne_nil {tokens : List Token} (h : Line tokens) (hne : tokens ≠ []) :
    writeAll tokens ≠ [] := by
  cases h with
  | nil => contradiction
  | message => exact List.cons_ne_nil _ _
  | cons ht _ => exact List.append_ne_nil_of_left_ne_nil (written_ne_nil ht) _

theorem writeAll_message (text : String) : writeAll [message text] = (message text).written :=
  List.append_nil _

theorem trimmed_writeAll {tokens : List Token} (h : Line tokens) : Text.Trimmed (writeAll tokens) := by
  induction h with
  | nil => exact Text.Trimmed.nil
  | message htext => exact writeAll_message _ ▸ trimmed_message htext
  | @cons t later ht hlater ih =>
    have hwritten := trimmed_written ht
    cases later with
    | nil =>
      have hempty : t.apart (writeAll []) = [] := rfl
      rw [writeAll, hempty, List.append_nil]
      exact hwritten
    | cons u later =>
      have hne := writeAll_ne_nil hlater (List.cons_ne_nil u later)
      rw [writeAll, apart]
      split
      · exact hwritten.append ih (written_ne_nil ht) hne [' ']
      · exact hwritten.append ih (written_ne_nil ht) hne []

theorem lineFeed_not_mem_writeAll {tokens : List Token} (h : Line tokens) : '\n' ∉ writeAll tokens := by
  induction h with
  | nil => exact List.not_mem_nil
  | @message text htext =>
    rw [writeAll_message, written]
    have hraw := Text.lineFeed_not_mem_spaced (Escape.lineFeed_not_mem_encode text.toList)
    exact List.not_mem_cons_of_ne_of_not_mem (by decide) hraw
  | @cons t later ht _ ih =>
    have hwritten : '\n' ∉ t.written := fun hmem =>
      absurd (isBlank_written ht _ hmem).1 (by decide)
    rw [writeAll, apart]
    split
    · simp [hwritten, ih]
    · simp [hwritten, ih]

theorem head?_writeAll {tokens : List Token} (h : Line tokens) : ∀ c ∈ (writeAll tokens).head?, c ≠ '#' := by
  intro c hc
  cases h with
  | nil => contradiction
  | message =>
    obtain rfl := Option.some.inj hc
    decide
  | cons ht =>
    rw [writeAll, List.head?_append_of_ne_nil _ (written_ne_nil ht)] at hc
    exact (isBlank_written ht c (List.mem_of_mem_head? hc)).2.1

theorem trimStart_apart {t : Token} {text : List Char} (h : Text.Trimmed text) :
    Text.trimStart (t.apart text) = text := by
  have htext := Text.trimStart_of_head h.first
  unfold apart
  split
  · rwa [Text.trimStart, List.dropWhile_cons_of_pos Text.isBlank_space]
  · exact htext

theorem absorbs_apart {t : Token} (text : List Char) : ∀ c ∈ (t.apart text).head?, t.absorbs c = false := by
  have hspace : t.absorbs ' ' = false := by
    cases t <;> rfl
  intro c hc
  unfold apart at hc
  by_cases hstart : text.head?.any t.absorbs = true
  · rw [if_pos hstart] at hc
    obtain rfl := Option.some.inj hc
    exact hspace
  · rw [if_neg hstart] at hc
    rw [Option.mem_def.mp hc, Option.any_some] at hstart
    exact Bool.eq_false_iff.mpr hstart

theorem tokenize_eq (text : List Char) :
    tokenize text =
      match Text.trimStart text with
      | [] => .ok []
      | '#' :: _ => .ok []
      | ':' :: rest =>
        match Escape.decode (Text.trim rest) with
        | .ok decoded => .ok [message (String.ofList decoded)]
        | .error fault => .error (.escape fault)
      | c :: rest =>
        match next? (c :: rest) with
        | some (token, later) => (tokenize later).map (token :: ·)
        | none => .error (.unexpected c) := by
  rw [tokenize]
  split <;> rename_i hstart
  · rw [hstart]
  · rw [hstart]
    rfl
  · rw [hstart]
    rfl
  · split <;> rename_i hnext <;> simp only [hstart, hnext]

theorem tokenize_of_next? {text rest later : List Char} {c : Char} {t : Token}
    (hstart : Text.trimStart text = c :: rest) (hhash : c ≠ '#') (hcolon : c ≠ ':')
    (hnext : next? (c :: rest) = some (t, later)) : tokenize text = (tokenize later).map (t :: ·) := by
  rw [tokenize_eq, hstart]
  simp only [hnext]

theorem tokenize_of_colon {text rest : List Char} {decoded : List Char}
    (hstart : Text.trimStart text = ':' :: rest) (hdecode : Escape.decode (Text.trim rest) = .ok decoded) :
    tokenize text = .ok [message (String.ofList decoded)] := by
  rw [tokenize_eq, hstart]
  simp only [hdecode]

theorem tokenize_of_nil {text : List Char} (hstart : Text.trimStart text = []) : tokenize text = .ok [] := by
  rw [tokenize_eq, hstart]

theorem tokenize_of_trimStart {tokens : List Token} (h : Line tokens) {text : List Char}
    (hstart : Text.trimStart text = writeAll tokens) : tokenize text = .ok tokens := by
  induction h generalizing text with
  | nil => exact tokenize_of_nil hstart
  | @message message htext =>
    rw [writeAll_message] at hstart
    have hdecode : Escape.decode (Text.trim (Text.spaced (Escape.encode message.toList))) = .ok message.toList := by
      rw [Text.trim_spaced, (Escape.trimmed_encode htext).trim_eq, Escape.decode_encode]
    rw [tokenize_of_colon hstart hdecode, String.ofList_toList]
  | @cons t later ht hlater ih =>
    obtain ⟨c, rest, hwritten⟩ := List.exists_cons_of_ne_nil (written_ne_nil ht)
    obtain ⟨_, hhash, hcolon⟩ := isBlank_written ht c (hwritten ▸ List.mem_cons_self)
    have hnext := next?_written ht (absorbs_apart (t := t) (writeAll later))
    rw [writeAll, hwritten, List.cons_append] at hstart
    rw [hwritten, List.cons_append] at hnext
    rw [tokenize_of_next? hstart hhash hcolon hnext, ih (trimStart_apart (trimmed_writeAll hlater))]
    rfl

end Token

end SequenceChart
