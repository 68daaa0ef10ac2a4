import SequenceChart.Proofs.Script.Renumbering
import SequenceChart.Proofs.Script.Scan

/-! Trivia of a script: line ends, blanks around a line, comments, lines that say nothing and the case of keywords. A
script can be rewritten in any of these, and is read as the same nodes or fails for the same fault. -/

namespace SequenceChart

namespace Statement

/-- Ways to rewrite a line that have no say in what it says. -/
inductive Respelled : List Char → List Char → Prop
  | pad {before after : List Char} (line : List Char) :
      (∀ c ∈ before, Text.isBlank c = true) → (∀ c ∈ after, Text.isBlank c = true) →
        Respelled line (before ++ (line ++ after))
  /-- A comment can follow what is not blank, is no setting and is not scanned as far as a message. -/
  | comment {line blanks : List Char} (text : List Char) :
      Text.trim line ≠ [] → isSettingLine line = false → ¬Token.HasMessage line →
        (∀ c ∈ blanks, Text.isBlank c = true) → Respelled line (line ++ (blanks ++ '#' :: text))
  /-- A keyword that the line is scanned up to, and that ends before a character of no word. -/
  | recase {before word other rest : List Char} {tokens : List Token} :
      Token.Scans before tokens (word ++ rest) → (∀ c ∈ rest.head?, Token.isNameChar c = false) →
        Token.Recased word other → Respelled (before ++ (word ++ rest)) (before ++ (other ++ rest))

/-- A blank line, or a comment that is no setting. -/
inductive Silent : List Char → Prop
  | blank {line : List Char} : (∀ c ∈ line, Text.isBlank c = true) → Silent line
  | comment {text : List Char} : text.head? ≠ some '!' → Silent ('#' :: text)

theorem isSettingLine_eq_true_iff {line : List Char} :
    isSettingLine line = true ↔ ∃ rest, Text.trimStart line = '#' :: '!' :: rest := by
  constructor
  · intro h
    obtain ⟨rest, hrest⟩ := exists_of_isSettingLine h
    obtain ⟨blanks, _, hline⟩ := Text.exists_trimEnd_blanks (Text.trimStart line)
    unfold Text.trim at hrest
    rw [hrest] at hline
    exact ⟨_, hline⟩
  · rintro ⟨rest, hrest⟩
    unfold isSettingLine Text.trim
    rw [hrest, Text.trimEnd_cons (by decide), Text.trimEnd_cons (by decide)]
    rfl

theorem tokenize_of_isSettingLine {line : List Char} (h : isSettingLine line = true) :
    Token.tokenize line = .ok [] := by
  obtain ⟨rest, hrest⟩ := exists_of_isSettingLine h
  rw [← Token.tokenize_trim, hrest, Token.tokenize_eq]
  rfl

theorem isSettingLine_of_tokenize {line rest : List Char} {tokens : List Token} {t : Token}
    (h : Token.tokenize line = (Token.tokenize rest).map (tokens ++ t :: ·)) : isSettingLine line = false := by
  rw [← Bool.not_eq_true]
  intro hsetting
  rw [tokenize_of_isSettingLine hsetting] at h
  obtain ⟨later, _, hlater⟩ := map_eq_ok.mp h.symm
  exact List.append_ne_nil_of_right_ne_nil _ (List.cons_ne_nil _ _) hlater

theorem ofLine_eq_ofScan {line : List Char} (h : isSettingLine line = false) :
    ofLine line = ofScan (Token.tokenize line) := by
  rw [ofLine_scan h, Token.tokenize_trim]

theorem isSettingLine_append {line tail : List Char} (hline : Text.trim line ≠ []) (h : isSettingLine line = false)
    (htail : Token.Apart tail) : isSettingLine (line ++ tail) = false := by
  rw [← Bool.not_eq_true, isSettingLine_eq_true_iff] at h ⊢
  rintro ⟨rest, hrest⟩
  have hne : Text.trimStart line ≠ [] := by
    intro hnil
    unfold Text.trim at hline
    rw [hnil] at hline
    exact hline rfl
  obtain ⟨c, text, htext⟩ := List.exists_cons_of_ne_nil hne
  rw [Text.trimStart_append htext] at hrest
  obtain ⟨rfl, hmark⟩ := List.cons_eq_cons.mp hrest
  cases text with
  | nil => exact (htail '!' (List.head?_eq_some_iff.mpr ⟨rest, hmark⟩)).elim (by decide) (by decide)
  | cons d text =>
    obtain ⟨rfl, _⟩ := List.cons_eq_cons.mp hmark
    exact h ⟨text, htext⟩

theorem ofLine_of_silent {line : List Char} (h : Silent line) : ofLine line = .ok none := by
  cases h with
  | blank hblank => exact ofLine_of_trim_eq_nil (by rw [Text.trim, Text.trimStart_eq_nil_iff.mpr hblank]; rfl)
  | @comment text hmark =>
    have hstart : Text.trimStart ('#' :: text) = '#' :: text := rfl
    have hsetting : isSettingLine ('#' :: text) = false := by
      rw [← Bool.not_eq_true, isSettingLine_eq_true_iff, hstart]
      rintro ⟨rest, hrest⟩
      exact hmark (List.head?_eq_some_iff.mpr ⟨rest, (List.cons_eq_cons.mp hrest).2⟩)
    have hhalts : Token.Halts ('#' :: text) := .inr ⟨text, hstart⟩
    rw [ofLine_eq_ofScan hsetting, hhalts.tokenize]
    rfl

theorem ofLine_of_respelled {line other : List Char} (h : Respelled line other) : ofLine other = ofLine line := by
  cases h with
  | pad _ hbefore hafter =>
    refine ofLine_eq_of_trim_eq ?_
    rw [Text.trim_blanks_append hbefore, Text.trim_append_blanks hafter]
  | @comment _ blanks text hline hsetting hmessage hblanks =>
    have hhalts : Token.Halts (blanks ++ '#' :: text) :=
      .inr ⟨text, (Text.trimStart_blanks hblanks ('#' :: text)).trans rfl⟩
    rw [ofLine_eq_ofScan hsetting, ofLine_eq_ofScan (isSettingLine_append hline hsetting hhalts.apart),
      Token.tokenize_append hhalts (.inr hmessage)]
  | recase hscans hrest hcase =>
    obtain ⟨k, hk⟩ := Token.tokenize_recased hcase hscans hrest
    obtain ⟨hword, hother⟩ := List.forall_mem_cons.mp hk
    rw [List.forall_mem_singleton] at hother
    rw [ofLine_eq_ofScan (isSettingLine_of_tokenize hother), ofLine_eq_ofScan (isSettingLine_of_tokenize hword), hother,
      hword]

end Statement

namespace Script

/-- Rewriting one place of a script, with what the numbers of its lines become. -/
inductive Rewrite : String → String → (Nat → Nat) → Prop
  | lineEnd (before after : String) : Rewrite (before ++ "\n" ++ after) (before ++ "\r\n" ++ after) id
  | line {text other : String} {before after : List (List Char)} {first second : List Char} :
      Text.lines text.toList = before ++ first :: after → Text.lines other.toList = before ++ second :: after →
        Statement.Respelled first second → Rewrite text other id
  | insert {text other : String} {before after : List (List Char)} {silent : List Char} :
      Text.lines text.toList = before ++ after → Text.lines other.toList = before ++ silent :: after →
        Statement.Silent silent → Rewrite text other (shifted before.length)

/-- Any number of rewritings, one after another. -/
inductive Rewrites : String → String → (Nat → Nat) → Prop
  | none (text : String) : Rewrites text text id
  | step {text middle other : String} {f g : Nat → Nat} :
      Rewrites text middle f → Rewrite middle other g → Rewrites text other (g ∘ f)

theorem parse_lineEnd (before after : String) :
    parse (before ++ "\r\n" ++ after) = parse (before ++ "\n" ++ after) := by
  obtain ⟨earlier, last, hrows, hmore⟩ := Text.exists_rows_append (c := '\r') (by decide) before.toList
  have hend : (before ++ "\r\n" ++ after).toList = (before.toList ++ ['\r']) ++ '\n' :: after.toList := by
    simp
  have hfeed : (before ++ "\n" ++ after).toList = before.toList ++ '\n' :: after.toList := by
    simp
  have hlast : Statement.ofLine (last ++ ['\r']) = Statement.ofLine last :=
    Statement.ofLine_eq_of_trim_eq (Text.trim_append_blank Text.isBlank_carriageReturn last)
  rw [parse_eq_parseLines_rows, parse_eq_parseLines_rows, hend, hfeed, Text.rows_append, Text.rows_append, hrows, hmore]
  refine parseLines_eq_of_map_eq ?_
  simp only [List.map_append, List.map_cons, List.map_nil, hlast]

theorem parse_rewrite {text other : String} {f : Nat → Nat} (h : Rewrite text other f) :
    parse other = renumbered f (List.map (Node.renumber f)) (parse text) := by
  cases h with
  | lineEnd before after => rw [renumbered_id, parse_lineEnd]
  | line htext hother hline =>
    rw [renumbered_id, parse, parse, htext, hother]
    refine parseLines_eq_of_map_eq ?_
    rw [List.map_append, List.map_append, List.map_cons, List.map_cons, Statement.ofLine_of_respelled hline]
  | insert htext hother hsilent =>
    rw [parse, parse, htext, hother]
    exact parseLines_insert (Statement.ofLine_of_silent hsilent) _ _

/-- Trivia carries no meaning. A script that was rewritten in line ends, in blanks around its lines, in comments, in
lines that say nothing and in the case of keywords, as often as one likes, is read as the same tree, or fails for the
same fault. Only the lines are numbered as the rewriting numbers them. -/
theorem parse_rewrites {text other : String} {f : Nat → Nat} (h : Rewrites text other f) :
    parse other = renumbered f (List.map (Node.renumber f)) (parse text) := by
  induction h with
  | none => exact (renumbered_id _).symm
  | @step middle other f g _ hlast ih =>
    have hcompose : List.map (Node.renumber g) ∘ List.map (Node.renumber f) = List.map (Node.renumber (g ∘ f)) :=
      funext (Node.map_renumber_map_renumber f g)
    rw [parse_rewrite hlast, ih, renumbered_renumbered, hcompose]

def bareSample : String := "alt: x\na->b\nend"

def fullSample : String := "ALT: x\r\n# of two\n\t a->b  # first: a\nend"

theorem parse_rewrites_fullSample :
    Rewrites bareSample fullSample (shifted 1) ∧
      parse fullSample = renumbered (shifted 1) (List.map (Node.renumber (shifted 1))) (parse bareSample) := by
  have hreturn : Rewrites bareSample "alt: x\r\na->b\nend" id := .step (.none _) (.lineEnd "alt: x" "a->b\nend")
  have hremark : Rewrites bareSample "alt: x\r\n# of two\na->b\nend" (shifted 1) :=
    .step hreturn (@Rewrite.insert _ _ ["alt: x".toList] ["a->b".toList, "end".toList] ('#' :: " of two".toList)
      (by decide +kernel) (by decide +kernel) (.comment (by decide)))
  have hblanks : Rewrites bareSample "alt: x\r\n# of two\n\t a->b\nend" (shifted 1) :=
    .step hremark (@Rewrite.line _ _ ["alt: x".toList, "# of two".toList] ["end".toList] "a->b".toList
      ("\t ".toList ++ ("a->b".toList ++ [])) (by decide +kernel) (by decide +kernel)
      (.pad "a->b".toList (by decide) nofun))
  have hmessage : ¬Token.HasMessage "\t a->b".toList := by
    rintro ⟨before, tokens, rest, hline, _⟩
    have hcolon : ':' ∉ "\t a->b".toList := by decide
    exact absurd (hline ▸ List.mem_append_right before List.mem_cons_self) hcolon
  have hcomment : Rewrites bareSample "alt: x\r\n# of two\n\t a->b  # first: a\nend" (shifted 1) :=
    .step hblanks (@Rewrite.line _ _ ["alt: x".toList, "# of two".toList] ["end".toList] "\t a->b".toList
      ("\t a->b".toList ++ ("  ".toList ++ '#' :: " first: a".toList)) (by decide +kernel) (by decide +kernel)
      (.comment " first: a".toList (by decide +kernel) (by decide +kernel) hmessage (by decide)))
  have hrewrites : Rewrites bareSample fullSample (shifted 1) :=
    .step hcomment (@Rewrite.line _ _ [] ["# of two".toList, "\t a->b  # first: a".toList, "end".toList]
      ([] ++ ("alt".toList ++ ": x".toList)) ([] ++ ("ALT".toList ++ ": x".toList)) (by decide +kernel)
      (by decide +kernel) (.recase (.nil _) (by decide +kernel) ⟨by decide, by decide⟩))
  exact ⟨hrewrites, parse_rewrites hrewrites⟩

end Script

end SequenceChart
