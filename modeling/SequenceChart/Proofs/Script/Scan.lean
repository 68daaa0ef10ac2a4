import SequenceChart.Proofs.Outcome
import SequenceChart.Proofs.Script.Tokens

/-! Scans of a line, token by token. A token ends before the first character that it does not absorb, so what comes
after it has a say in how a line is scanned only by its first character. -/

namespace SequenceChart

namespace Token

def IsMark : Token → Prop
  | keyword _ | ident _ | message _ => False
  | _ => True

/-- The ways to spell a token that a scan can meet. -/
inductive Spelled : Token → List Char → Prop
  | mark {t : Token} : t.IsMark → Spelled t t.written
  | word {run : List Char} : run ≠ [] → (∀ c ∈ run, isNameChar c = true) → Spelled (ofWord (String.ofList run)) run

theorem plain_of_isMark {t : Token} (h : t.IsMark) : t.Plain := by
  cases t <;> first | exact h.elim | exact trivial

theorem absorbs_ofWord (word : String) (c : Char) : (ofWord word).absorbs c = isNameChar c := by
  unfold ofWord
  split <;> rfl

namespace Spelled

variable {t : Token} {chunk : List Char}

theorem ne_nil (h : Spelled t chunk) : chunk ≠ [] := by
  cases h with
  | mark hmark => exact written_ne_nil (plain_of_isMark hmark)
  | word hne => exact hne

theorem chars (h : Spelled t chunk) : ∀ c ∈ chunk, Text.isBlank c = false ∧ c ≠ '#' ∧ c ≠ ':' := by
  cases h with
  | mark hmark => exact isBlank_written (plain_of_isMark hmark)
  | word _ hrun => exact fun c hc => isBlank_of_isNameChar (hrun c hc)

end Spelled

theorem mark_of_operator? {text rest : List Char} {t : Token} (h : operator? text = some (t, rest)) :
    t.IsMark ∧ text = t.written ++ rest ∧ ∀ c ∈ rest.head?, t.absorbs c = false := by
  -- Only a dash and an angle stop short of a mark that they could be part of.
  have hne : ∀ {d : Char}, (∀ later, rest = d :: later → False) → ∀ c ∈ rest.head?, (c == d) = false := by
    intro d hrest c hc
    rw [beq_eq_false_iff_ne]
    rintro rfl
    obtain ⟨later, hlater⟩ := List.head?_eq_some_iff.mp hc
    exact hrest later hlater
  revert h
  fun_cases operator? text with
  | case2 later hlater | case4 later hlater =>
    rintro ⟨⟩
    exact ⟨trivial, rfl, hne hlater⟩
  | _ =>
    rintro ⟨⟩
    all_goals exact ⟨trivial, rfl, fun c _ => rfl⟩

/-- The longest match at the start of a text is a token spelled out, up to a character that it does not absorb. -/
theorem next?_eq_some_iff {text rest : List Char} {t : Token} :
    next? text = some (t, rest) ↔
      ∃ chunk, Spelled t chunk ∧ text = chunk ++ rest ∧ ∀ c ∈ rest.head?, t.absorbs c = false := by
  constructor
  · intro h
    unfold next? at h
    split at h
    · rename_i found hfound
      obtain rfl := Option.some.inj h
      obtain ⟨hmark, htext, hrest⟩ := mark_of_operator? hfound
      exact ⟨_, .mark hmark, htext, hrest⟩
    · unfold word? at h
      split at h
      · contradiction
      · rename_i c run hrun
        obtain ⟨rfl, rfl⟩ := Prod.mk.inj (Option.some.inj h)
        refine ⟨c :: run, .word (List.cons_ne_nil c run) ?_, ?_, ?_⟩
        · rw [← hrun]
          exact List.all_eq_true.mp List.all_takeWhile
        · rw [← hrun, List.takeWhile_append_dropWhile]
        · intro d hd
          rw [absorbs_ofWord]
          exact Text.head?_dropWhile isNameChar text d hd
  · rintro ⟨chunk, hspelled, rfl, hrest⟩
    cases hspelled with
    | mark hmark => exact next?_written (plain_of_isMark hmark) hrest
    | word hne hrun =>
      exact next?_run hne hrun fun c hc => (absorbs_ofWord _ c).symm.trans (hrest c hc)

theorem next?_append_eq_some_iff {chunk rest : List Char} {t : Token} :
    next? (chunk ++ rest) = some (t, rest) ↔ Spelled t chunk ∧ ∀ c ∈ rest.head?, t.absorbs c = false := by
  rw [next?_eq_some_iff]
  constructor
  · rintro ⟨found, hspelled, hsplit, hrest⟩
    exact ⟨List.append_cancel_right hsplit ▸ hspelled, hrest⟩
  · rintro ⟨hspelled, hrest⟩
    exact ⟨chunk, hspelled, rfl, hrest⟩

theorem tokenize_spelled {t : Token} {chunk rest : List Char} (h : Spelled t chunk)
    (hrest : ∀ c ∈ rest.head?, t.absorbs c = false) :
    tokenize (chunk ++ rest) = (tokenize rest).map (t :: ·) := by
  have hnext := next?_append_eq_some_iff.mpr ⟨h, hrest⟩
  obtain ⟨c, run, rfl⟩ := List.exists_cons_of_ne_nil h.ne_nil
  obtain ⟨hblank, hhash, hcolon⟩ := h.chars c List.mem_cons_self
  exact tokenize_of_next? (List.dropWhile_cons_of_neg (by simp [hblank])) hhash hcolon hnext

def Apart (text : List Char) : Prop := ∀ c ∈ text.head?, Text.isBlank c = true ∨ c = '#'

theorem Apart.not_mem {text : List Char} (h : Apart text) {c : Char} {later : List Char} (htext : text = c :: later)
    {t : Token} {chunk : List Char} (hspelled : Spelled t chunk) : c ∉ chunk := by
  intro hmem
  obtain ⟨hblank, hhash, _⟩ := hspelled.chars c hmem
  subst htext
  cases h c rfl with
  | inl hc =>
    rw [hblank] at hc
    contradiction
  | inr hc => exact hhash hc

theorem Apart.absorbs {text : List Char} (h : Apart text) (t : Token) : ∀ c ∈ text.head?, t.absorbs c = false := by
  intro c hc
  have hname : isNameChar c = false := by
    rw [← Bool.not_eq_true]
    intro hname
    obtain ⟨hblank, hhash, _⟩ := isBlank_of_isNameChar hname
    cases h c hc with
    | inl hc =>
      rw [hblank] at hc
      contradiction
    | inr hc => exact hhash hc
  have hmark : c ≠ '-' ∧ c ≠ '>' := by
    constructor <;> rintro rfl <;> exact (h _ hc).elim (by decide) (by decide)
  cases t <;> simp [Token.absorbs, hname, hmark]

theorem next?_append {tail : List Char} (htail : Apart tail) (text : List Char) :
    next? (text ++ tail) = (next? text).map fun found => (found.1, found.2 ++ tail) := by
  cases hnext : next? text with
  | some found =>
    obtain ⟨t, rest⟩ := found
    obtain ⟨chunk, hspelled, rfl, hrest⟩ := next?_eq_some_iff.mp hnext
    refine next?_eq_some_iff.mpr ⟨chunk, hspelled, List.append_assoc _ _ _, ?_⟩
    cases rest with
    | nil => exact htail.absorbs t
    | cons c rest => exact hrest
  | none =>
    rw [Option.map_none, Option.eq_none_iff_forall_ne_some]
    rintro ⟨t, rest⟩ hfound
    obtain ⟨chunk, hspelled, hsplit, hrest⟩ := next?_eq_some_iff.mp hfound
    have hno : ∀ later, text = chunk ++ later → (∀ c ∈ later.head?, t.absorbs c = false) → False := by
      intro later htext hlater
      rw [next?_eq_some_iff.mpr ⟨chunk, hspelled, htext, hlater⟩] at hnext
      contradiction
    obtain ⟨more, rfl, htail'⟩ | ⟨later, htext, rfl⟩ := List.append_eq_append_iff.mp hsplit
    · -- The token would reach into the tail, which starts with no character of a token.
      cases more with
      | nil => exact hno [] (List.append_nil _ ▸ (List.append_nil _).symm) nofun
      | cons c more => exact htail.not_mem htail' hspelled (List.mem_append_right _ List.mem_cons_self)
    · cases later with
      | nil => exact hno [] htext nofun
      | cons c later => exact hno _ htext hrest

/-- Whether the scan of a text reads its first part as these tokens, and so comes to stand before the rest. -/
inductive Scans : List Char → List Token → List Char → Prop
  | nil (rest : List Char) : Scans [] [] rest
  | blank {c : Char} {text : List Char} {tokens : List Token} {rest : List Char} :
      Text.isBlank c = true → Scans text tokens rest → Scans (c :: text) tokens rest
  | token {t : Token} {chunk text : List Char} {tokens : List Token} {rest : List Char} :
      next? (chunk ++ (text ++ rest)) = some (t, text ++ rest) → Scans text tokens rest →
        Scans (chunk ++ text) (t :: tokens) rest

theorem Scans.blanks {blanks text : List Char} (hblanks : ∀ c ∈ blanks, Text.isBlank c = true) {tokens : List Token}
    {rest : List Char} (h : Scans text tokens rest) : Scans (blanks ++ text) tokens rest := by
  induction blanks with
  | nil => exact h
  | cons c blanks ih =>
    obtain ⟨hc, hlater⟩ := List.forall_mem_cons.mp hblanks
    exact .blank hc (ih hlater)

theorem Scans.of_trimStart {text rest : List Char} (h : Text.trimStart text = rest) :
    ∃ blanks, text = blanks ++ rest ∧ Scans blanks [] rest := by
  obtain ⟨blanks, hblanks, htext⟩ := Text.exists_blanks_trimStart text
  rw [h] at htext
  exact ⟨blanks, htext, List.append_nil blanks ▸ Scans.blanks hblanks (.nil rest)⟩

theorem Scans.of_next? {before rest : List Char} {tokens : List Token} (h : Scans before tokens rest)
    {text : List Char} {t : Token} (hnext : next? (Text.trimStart text) = some (t, before ++ rest)) :
    ∃ longer, text = longer ++ rest ∧ Scans longer (t :: tokens) rest := by
  obtain ⟨blanks, hblanks, htext⟩ := Text.exists_blanks_trimStart text
  obtain ⟨chunk, _, hchunk, _⟩ := next?_eq_some_iff.mp hnext
  rw [hchunk] at hnext htext
  refine ⟨blanks ++ (chunk ++ before), ?_, .blanks hblanks (.token hnext h)⟩
  rw [htext, List.append_assoc, List.append_assoc]

theorem tokenize_blank {c : Char} (h : Text.isBlank c = true) (text : List Char) :
    tokenize (c :: text) = tokenize text := by
  rw [tokenize_eq, tokenize_eq text, Text.trimStart, List.dropWhile_cons_of_pos h]
  rfl

def Halts (text : List Char) : Prop := Text.trimStart text = [] ∨ ∃ comment, Text.trimStart text = '#' :: comment

theorem Halts.tokenize {text : List Char} (h : Halts text) : tokenize text = .ok [] := by
  rw [tokenize_eq]
  obtain h | ⟨comment, h⟩ := h <;> rw [h]
  rfl

theorem Halts.apart {text : List Char} (h : Halts text) : Apart text := by
  intro c hc
  obtain ⟨rest, rfl⟩ := List.head?_eq_some_iff.mp hc
  cases hblank : Text.isBlank c with
  | true => exact .inl rfl
  | false =>
    have hstart : Text.trimStart (c :: rest) = c :: rest := List.dropWhile_cons_of_neg (by simp [hblank])
    rw [Halts, hstart] at h
    obtain h | ⟨comment, h⟩ := h
    · contradiction
    · exact .inr (List.cons_eq_cons.mp h).1

def HasMessage (text : List Char) : Prop :=
  ∃ before tokens rest, text = before ++ ':' :: rest ∧ Scans before tokens (':' :: rest)

theorem hasMessage_of_colon {text rest : List Char} (hstart : Text.trimStart text = ':' :: rest) :
    HasMessage text := by
  obtain ⟨blanks, htext, hscans⟩ := Scans.of_trimStart hstart
  exact ⟨blanks, [], rest, htext, hscans⟩

theorem hasMessage_of_next? {text later : List Char} {t : Token}
    (hnext : next? (Text.trimStart text) = some (t, later)) (h : HasMessage later) : HasMessage text := by
  obtain ⟨before, tokens, rest, rfl, hscans⟩ := h
  obtain ⟨longer, htext, hlonger⟩ := hscans.of_next? hnext
  exact ⟨longer, t :: tokens, rest, htext, hlonger⟩

/-- A scan reads no more tokens for a comment at the end of a line, unless it takes the comment for a part of a
message. Blanks at the end are no part of a message. -/
theorem tokenize_append {text tail : List Char} (htail : Halts tail)
    (hmessage : Text.trimStart tail = [] ∨ ¬HasMessage text) : tokenize (text ++ tail) = tokenize text := by
  induction text using tokenize.induct with
  | case1 text hstart =>
    have hblanks := Text.trimStart_eq_nil_iff.mp hstart
    rw [tokenize_of_nil hstart, tokenize_eq, Text.trimStart_blanks hblanks, ← tokenize_eq, htail.tokenize]
  | case2 text rest hstart =>
    rw [tokenize_eq, tokenize_eq text, Text.trimStart_append hstart, hstart]
    rfl
  | case3 text rest hstart | case4 text rest hstart =>
    have hblanks := Text.trimStart_eq_nil_iff.mp (hmessage.resolve_right (not_not_intro (hasMessage_of_colon hstart)))
    rw [tokenize_eq, tokenize_eq text, Text.trimStart_append hstart, hstart]
    simp only [Text.trim_append_blanks hblanks]
  | case5 text c rest hhash hcolon hstart t later hnext _ ih =>
    have happend := next?_append htail.apart (c :: rest)
    rw [hnext] at happend
    have hlater := hmessage.imp_right (mt (hasMessage_of_next? (hstart ▸ hnext)))
    rw [tokenize_of_next? (Text.trimStart_append hstart) hhash hcolon happend,
      tokenize_of_next? hstart hhash hcolon hnext, ih hlater]
  | case6 text c rest hhash hcolon hstart hnext =>
    have happend := next?_append htail.apart (c :: rest)
    rw [hnext, List.cons_append, Option.map_none] at happend
    rw [tokenize_eq, tokenize_eq text, Text.trimStart_append hstart, hstart]
    simp only [hnext, happend]

theorem Scans.tokenize_append {text rest : List Char} {tokens : List Token} (h : Scans text tokens rest) :
    tokenize (text ++ rest) = (tokenize rest).map (tokens ++ ·) := by
  induction h with
  | nil rest =>
    rw [List.nil_append]
    cases tokenize rest <;> rfl
  | blank hc _ ih => exact (tokenize_blank hc _).trans ih
  | token hnext _ ih =>
    obtain ⟨hspelled, hrest⟩ := next?_append_eq_some_iff.mp hnext
    rw [List.append_assoc, tokenize_spelled hspelled hrest, ih, map_map]
    rfl

theorem Scans.of_absorbs {text rest : List Char} {tokens : List Token} (h : Scans text tokens rest)
    {other : List Char}
    (hother : ∀ t : Token, (∀ c ∈ rest.head?, t.absorbs c = false) → ∀ c ∈ other.head?, t.absorbs c = false) :
    Scans text tokens other := by
  induction h with
  | nil rest => exact .nil other
  | blank hc _ ih => exact .blank hc (ih hother)
  | @token t chunk text tokens rest hnext _ ih =>
    obtain ⟨hspelled, hrest⟩ := next?_append_eq_some_iff.mp hnext
    refine .token (next?_append_eq_some_iff.mpr ⟨hspelled, ?_⟩) (ih hother)
    cases text with
    | nil => exact hother t hrest
    | cons c text => exact hrest

structure Recased (word other : List Char) : Prop where
  keyword : (Keyword.ofWord? (String.ofList word)).isSome = true
  folded : Text.foldCase (String.ofList other) = Text.foldCase (String.ofList word)

theorem isNameChar_of_isLower_toLower {c : Char} (h : c.toLower.isLower = true) : isNameChar c = true := by
  have hletter : 'A'.toNat ≤ c.toNat ∧ c.toNat ≤ 'Z'.toNat ∨ 'a'.toNat ≤ c.toNat ∧ c.toNat ≤ 'z'.toNat := by
    unfold Char.toLower at h
    split at h
    · rename_i hupper
      exact .inl ⟨hupper.1, hupper.2⟩
    · unfold Char.isLower at h
      rw [Bool.and_eq_true, decide_eq_true_iff, decide_eq_true_iff] at h
      exact .inr h
  have hranges : ∀ n < 128, 'A'.toNat ≤ n ∧ n ≤ 'Z'.toNat ∨ 'a'.toNat ≤ n ∧ n ≤ 'z'.toNat →
      Text.inRanges Text.alphanumericLow n = true := by
    decide
  have hsmall : c.toNat < 128 := by
    have hupper : 'Z'.toNat < 128 := by decide
    have hlower : 'z'.toNat < 128 := by decide
    omega
  unfold isNameChar Text.isAlphanumeric
  simp only [if_pos (Nat.lt_trans hsmall (by decide : 128 < 0x1000)), hranges c.toNat hsmall hletter, Bool.true_or]

theorem isLower_text (k : Keyword) : ∀ c ∈ k.text.toList, c.isLower = true := by
  cases k <;> decide

theorem isNameChar_keyword {word : List Char} {k : Keyword} (h : Keyword.ofWord? (String.ofList word) = some k) :
    word ≠ [] ∧ ∀ c ∈ word, isNameChar c = true := by
  have hfolded : k.text.toList = word.map Char.toLower := by
    rw [Keyword.text_eq_of_ofWord? h, Text.foldCase, String.toList_ofList, String.toList_ofList]
  refine ⟨?_, fun c hc => isNameChar_of_isLower_toLower (isLower_text k _ (hfolded ▸ List.mem_map_of_mem hc))⟩
  rintro rfl
  have hne : k.text.toList ≠ [] := by cases k <;> decide
  exact hne hfolded

theorem absorbs_of_isNameChar {t : Token} {c d : Char} (hc : isNameChar c = true) (hd : isNameChar d = true)
    (h : t.absorbs c = false) : t.absorbs d = false := by
  have hmark : d ≠ '-' ∧ d ≠ '>' := by
    constructor <;> rintro rfl <;> exact absurd hd (by decide +kernel)
  cases t with
  | keyword | ident => exact absurd hc (Bool.not_eq_true _ ▸ h)
  | dash => exact beq_eq_false_iff_ne.mpr hmark.1
  | gt => exact beq_eq_false_iff_ne.mpr hmark.2
  | _ => rfl

theorem tokenize_keyword {word before rest : List Char} {k : Keyword} {tokens : List Token}
    (h : Keyword.ofWord? (String.ofList word) = some k) (hscans : Scans before tokens (word ++ rest))
    (hrest : ∀ c ∈ rest.head?, isNameChar c = false) :
    tokenize (before ++ (word ++ rest)) = (tokenize rest).map (tokens ++ keyword k :: ·) := by
  obtain ⟨hne, hrun⟩ := isNameChar_keyword h
  have hspelled : Spelled (ofWord (String.ofList word)) word := .word hne hrun
  have hword : ofWord (String.ofList word) = keyword k := by
    rw [ofWord, h]
  rw [hword] at hspelled
  rw [hscans.tokenize_append, tokenize_spelled hspelled hrest, map_map]

theorem tokenize_recased {word other : List Char} (h : Recased word other) {before rest : List Char}
    {tokens : List Token} (hscans : Scans before tokens (word ++ rest))
    (hrest : ∀ c ∈ rest.head?, isNameChar c = false) :
    ∃ k, ∀ found ∈ [word, other],
      tokenize (before ++ (found ++ rest)) = (tokenize rest).map (tokens ++ keyword k :: ·) := by
  obtain ⟨k, hword⟩ := Option.isSome_iff_exists.mp h.keyword
  have hother : Keyword.ofWord? (String.ofList other) = some k := by
    rw [← hword]
    unfold Keyword.ofWord?
    rw [h.folded]
  have hscans' : Scans before tokens (other ++ rest) := by
    refine hscans.of_absorbs fun t ht => ?_
    obtain ⟨hne, hrun⟩ := isNameChar_keyword hword
    obtain ⟨hne', hrun'⟩ := isNameChar_keyword hother
    obtain ⟨c, run, rfl⟩ := List.exists_cons_of_ne_nil hne
    obtain ⟨d, run', rfl⟩ := List.exists_cons_of_ne_nil hne'
    rintro _ ⟨⟩
    exact absorbs_of_isNameChar (hrun c List.mem_cons_self) (hrun' d List.mem_cons_self) (ht c rfl)
  refine ⟨k, List.forall_mem_cons.mpr ⟨tokenize_keyword hword hscans hrest, ?_⟩⟩
  exact List.forall_mem_singleton.mpr (tokenize_keyword hother hscans' hrest)

theorem tokenize_trim (text : List Char) : tokenize (Text.trim text) = tokenize text := by
  obtain ⟨before, hbefore, hstart⟩ := Text.exists_blanks_trimStart text
  obtain ⟨after, hafter, hend⟩ := Text.exists_trimEnd_blanks (Text.trimStart text)
  have hhalts : Text.trimStart after = [] := Text.trimStart_eq_nil_iff.mpr hafter
  have htext : tokenize text = tokenize (Text.trimStart text) := by
    conv_lhs => rw [hstart, tokenize_eq, Text.trimStart_blanks hbefore, ← tokenize_eq]
  rw [htext, hend, tokenize_append (.inl hhalts) (.inl hhalts)]
  rfl

end Token

end SequenceChart
