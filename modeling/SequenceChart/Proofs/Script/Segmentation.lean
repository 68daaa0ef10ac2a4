import SequenceChart.Proofs.Script.Scan
import SequenceChart.Proofs.Script.Sentences

/-! The segmentation of a line. What a scan reads is told by the line alone: which text each token takes, that no
operator there is longer and no run of name characters goes on, and where the tokens end. -/

namespace SequenceChart

namespace Token

/-- How a line ends behind its tokens: with nothing, a comment, or a colon and a message. -/
inductive Closes : List Char → Option String → Prop
  | nothing : Closes [] none
  | comment (text : List Char) : Closes ('#' :: text) none
  | message {raw decoded : List Char} :
      Escape.decode (Text.trim raw) = .ok decoded → Closes (':' :: raw) (some (String.ofList decoded))

/-- What a scan cannot go on from: a message with a bad escape, or a character that starts nothing. -/
inductive Stuck : List Char → LexError → Prop
  | escape {raw : List Char} {fault : Escape.Error} :
      Escape.decode (Text.trim raw) = .error fault → Stuck (':' :: raw) (.escape fault)
  | unexpected {c : Char} {rest : List Char} (blank : Text.isBlank c = false) (hash : c ≠ '#') (colon : c ≠ ':')
      (word : isNameChar c = false) (operator : ∀ u : Token, u.IsMark → ¬u.written <+: c :: rest) :
      Stuck (c :: rest) (.unexpected c)

def marks : List Token := [dash, doubleDash, dot, equal, comma, gt, doubleGt, slashGt, backslashGt]

theorem operator?_isSome {u : Token} (h : u.IsMark) (rest : List Char) :
    (operator? (u.written ++ rest)).isSome = true := by
  cases u with
  | dash | gt =>
    simp only [written, List.cons_append, List.nil_append]
    unfold operator?
    split <;> simp_all
  | keyword | ident | message => exact h.elim
  | _ => rfl

theorem next?_eq_none_iff {c : Char} {rest : List Char} :
    next? (c :: rest) = none ↔ isNameChar c = false ∧ ∀ u : Token, u.IsMark → ¬u.written <+: c :: rest := by
  constructor
  · intro h
    unfold next? at h
    split at h
    · contradiction
    · rename_i hoperator
      constructor
      · rw [← Bool.not_eq_true]
        intro hname
        rw [word?, List.takeWhile_cons_of_pos hname] at h
        contradiction
      · rintro u hu ⟨later, hlater⟩
        have hsome := operator?_isSome hu later
        rw [hlater, hoperator] at hsome
        contradiction
  · rintro ⟨hname, hmarks⟩
    rw [Option.eq_none_iff_forall_ne_some]
    rintro ⟨t, later⟩ hnext
    obtain ⟨chunk, hspelled, hsplit, -⟩ := next?_eq_some_iff.mp hnext
    cases hspelled with
    | mark hmark => exact hmarks t hmark ⟨later, hsplit.symm⟩
    | word hne hchars =>
      obtain ⟨d, run, rfl⟩ := List.exists_cons_of_ne_nil hne
      obtain ⟨rfl, -⟩ := List.cons.inj hsplit
      rw [hchars c List.mem_cons_self] at hname
      contradiction

theorem Closes.tokenize {rest : List Char} {last : Option String} (h : Closes rest last) :
    tokenize rest = .ok (ofMessage? last) := by
  cases h with
  | nothing => exact tokenize_of_nil rfl
  | comment text => exact Halts.tokenize (.inr ⟨text, rfl⟩)
  | message hdecode => exact tokenize_of_colon rfl hdecode

theorem Stuck.tokenize {rest : List Char} {fault : LexError} (h : Stuck rest fault) :
    tokenize rest = .error fault := by
  rw [tokenize_eq]
  cases h with
  | escape hdecode =>
    have hstart : ∀ raw, Text.trimStart (':' :: raw) = ':' :: raw := fun _ => rfl
    rw [hstart]
    simp only [hdecode]
  | @unexpected c rest hblank hhash hcolon hname hmarks =>
    have hstart : Text.trimStart (c :: rest) = c :: rest := List.dropWhile_cons_of_neg (by simp [hblank])
    rw [hstart]
    simp only [next?_eq_none_iff.mpr ⟨hname, hmarks⟩]

end Token

end SequenceChart
