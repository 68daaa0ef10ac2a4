import Mathlib.Data.List.Basic
import Mathlib.Data.List.TakeWhile
import SequenceChart.Script.Lexer
import SequenceChart.Text.Lines

/-! Texts that reading leaves alone: what trimming keeps, how lines that were put together come apart, and
which characters cannot stand for one another. -/

namespace SequenceChart

namespace Text

/-- What holds of the characters of a text is decided by going through the text, not through all characters. -/
instance (priority := high) decidableForallMem (p : Char → Prop) [DecidablePred p] (text : List Char) :
    Decidable (∀ c ∈ text, p c) :=
  List.decidableBAll p text

instance (priority := high) decidableForallFound (p : Char → Prop) [DecidablePred p] (found : Option Char) :
    Decidable (∀ c ∈ found, p c) :=
  Option.decidableForallMem found

structure Trimmed (text : List Char) : Prop where
  first : ∀ c ∈ text.head?, isBlank c = false
  last : ∀ c ∈ text.getLast?, isBlank c = false

instance (text : List Char) : Decidable (Trimmed text) :=
  decidable_of_iff ((∀ c ∈ text.head?, isBlank c = false) ∧ ∀ c ∈ text.getLast?, isBlank c = false)
    ⟨fun h => ⟨h.1, h.2⟩, fun h => ⟨h.first, h.last⟩⟩

theorem Trimmed.nil : Trimmed [] := ⟨nofun, nofun⟩

theorem dropWhile_of_head {p : Char → Bool} {text : List Char} (h : ∀ c ∈ text.head?, p c = false) :
    text.dropWhile p = text := by
  cases text with
  | nil => rfl
  | cons c rest => exact List.dropWhile_cons_of_neg (Bool.not_eq_true _ ▸ h c rfl)

theorem head?_dropWhile (p : Char → Bool) (text : List Char) : ∀ c ∈ (text.dropWhile p).head?, p c = false := by
  intro c hc
  have hhead := List.head?_dropWhile_not p text
  rw [Option.mem_def.mp hc] at hhead
  exact hhead

theorem trimStart_of_head {text : List Char} (h : ∀ c ∈ text.head?, isBlank c = false) :
    trimStart text = text :=
  dropWhile_of_head h

theorem trimEnd_of_last {text : List Char} (h : ∀ c ∈ text.getLast?, isBlank c = false) :
    trimEnd text = text := by
  rw [← List.head?_reverse] at h
  unfold trimEnd
  rw [dropWhile_of_head h, List.reverse_reverse]

theorem Trimmed.trim_eq {text : List Char} (h : Trimmed text) : trim text = text := by
  unfold trim
  rw [trimStart_of_head h.first, trimEnd_of_last h.last]

theorem trimmed_of_forall {text : List Char} (h : ∀ c ∈ text, isBlank c = false) : Trimmed text :=
  ⟨fun c hc => h c (List.mem_of_mem_head? hc), fun c hc => h c (List.mem_of_mem_getLast? hc)⟩

theorem Trimmed.append {text later : List Char} (h : Trimmed text) (hlater : Trimmed later)
    (hne : text ≠ []) (hlaterne : later ≠ []) (between : List Char) :
    Trimmed (text ++ (between ++ later)) := by
  constructor
  · rw [List.head?_append_of_ne_nil _ hne]
    exact h.first
  · rw [← List.append_assoc, List.getLast?_append_of_ne_nil _ hlaterne]
    exact hlater.last

theorem isBlank_space : isBlank ' ' = true := by decide

theorem isBlank_lineFeed : isBlank '\n' = true := by decide

theorem isBlank_carriageReturn : isBlank '\r' = true := by decide

theorem trim_space_cons (text : List Char) : trim (' ' :: text) = trim text := by
  unfold trim trimStart
  rw [List.dropWhile_cons_of_pos isBlank_space]

def spaced : List Char → List Char
  | [] => []
  | c :: rest => ' ' :: c :: rest

theorem trim_spaced (text : List Char) : trim (spaced text) = trim text := by
  cases text with
  | nil => rfl
  | cons c rest => exact trim_space_cons (c :: rest)

theorem trimmed_append_spaced {text later : List Char} (h : Trimmed text) (hlater : Trimmed later)
    (hne : text ≠ []) : Trimmed (text ++ spaced later) := by
  cases later with
  | nil =>
    rw [spaced, List.append_nil]
    exact h
  | cons c rest => exact h.append hlater hne (List.cons_ne_nil c rest) [' ']

theorem lineFeed_not_mem_spaced {text : List Char} (h : '\n' ∉ text) : '\n' ∉ spaced text := by
  cases text with
  | nil => exact h
  | cons c rest => exact List.not_mem_cons_of_ne_of_not_mem (by decide) h

theorem Trimmed.getLast?_ne {text : List Char} (h : Trimmed text) : text.getLast? ≠ some '\r' := by
  intro hlast
  have hblank := h.last '\r' hlast
  rw [isBlank_carriageReturn] at hblank
  contradiction

theorem lines_cons {c : Char} {text line : List Char} {later : List (List Char)} (hfeed : c ≠ '\n')
    (hreturn : c = '\r' → text.head? ≠ some '\n') (h : lines text = line :: later) :
    lines (c :: text) = (c :: line) :: later := by
  rw [lines, h]
  · exact hfeed
  · rintro rest rfl rfl
    exact hreturn rfl rfl

theorem lines_line {line : List Char} (hfeed : '\n' ∉ line) (hreturn : line.getLast? ≠ some '\r')
    (rest : List Char) : lines (line ++ '\n' :: rest) = line :: lines rest := by
  induction line with
  | nil => simp only [List.nil_append, lines]
  | cons c line ih =>
    obtain ⟨hc, hline⟩ := List.forall_mem_cons.mp fun d hd => (ne_of_mem_of_not_mem hd hfeed : d ≠ '\n')
    refine lines_cons hc ?_ (ih (fun hmem => hline _ hmem rfl) fun hlast => hreturn ?_)
    -- A carriage return is only dropped in front of a line feed, so it would end the line.
    · rintro rfl
      cases line with
      | nil => exact absurd rfl hreturn
      | cons d line => simpa using hline d List.mem_cons_self
    · rw [List.getLast?_cons, hlast]
      rfl

theorem trim_append_blank {c : Char} (h : isBlank c = true) (text : List Char) : trim (text ++ [c]) = trim text := by
  unfold trim trimStart trimEnd
  rw [List.dropWhile_append]
  split
  · rename_i hempty
    rw [List.isEmpty_iff.mp hempty, List.dropWhile_cons_of_pos h, List.dropWhile_nil]
  · rw [List.reverse_append, List.reverse_singleton, List.singleton_append, List.dropWhile_cons_of_pos h]

theorem trim_append_blanks {blanks : List Char} (h : ∀ c ∈ blanks, isBlank c = true) (text : List Char) :
    trim (text ++ blanks) = trim text := by
  induction blanks generalizing text with
  | nil => rw [List.append_nil]
  | cons c blanks ih =>
    obtain ⟨hc, hlater⟩ := List.forall_mem_cons.mp h
    rw [List.append_cons, ih hlater, trim_append_blank hc]

theorem trimStart_blanks {blanks : List Char} (h : ∀ c ∈ blanks, isBlank c = true) (text : List Char) :
    trimStart (blanks ++ text) = trimStart text :=
  List.dropWhile_append_of_pos h

theorem trimStart_eq_nil_iff {text : List Char} : trimStart text = [] ↔ ∀ c ∈ text, isBlank c = true :=
  List.dropWhile_eq_nil_iff

theorem trimStart_append {text tail rest : List Char} {c : Char} (h : trimStart text = c :: rest) :
    trimStart (text ++ tail) = c :: (rest ++ tail) := by
  unfold trimStart at h ⊢
  rw [List.dropWhile_append, h]
  rfl

theorem trim_blanks_append {blanks : List Char} (h : ∀ c ∈ blanks, isBlank c = true) (text : List Char) :
    trim (blanks ++ text) = trim text := by
  unfold trim
  rw [trimStart_blanks h]

theorem trimEnd_cons {c : Char} (h : isBlank c = false) (text : List Char) :
    trimEnd (c :: text) = c :: trimEnd text := by
  have hlast : [c].dropWhile isBlank = [c] := List.dropWhile_cons_of_neg (Bool.not_eq_true _ ▸ h)
  unfold trimEnd
  rw [List.reverse_cons, List.dropWhile_append, hlast]
  split
  · rename_i hempty
    rw [List.isEmpty_iff.mp hempty]
    rfl
  · rw [List.reverse_append]
    rfl

theorem exists_blanks_trimStart (text : List Char) :
    ∃ blanks, (∀ c ∈ blanks, isBlank c = true) ∧ text = blanks ++ trimStart text :=
  ⟨text.takeWhile isBlank, List.all_eq_true.mp List.all_takeWhile, List.takeWhile_append_dropWhile.symm⟩

theorem exists_trimEnd_blanks (text : List Char) :
    ∃ blanks, (∀ c ∈ blanks, isBlank c = true) ∧ text = trimEnd text ++ blanks := by
  obtain ⟨blanks, hblanks, hsplit⟩ := exists_blanks_trimStart text.reverse
  refine ⟨blanks.reverse, fun c hc => hblanks c (List.mem_reverse.mp hc), ?_⟩
  unfold trimEnd
  rw [← List.reverse_append]
  exact List.reverse_eq_iff.mp hsplit

theorem lines_line_return {line : List Char} (hfeed : '\n' ∉ line) (rest : List Char) :
    lines (line ++ '\r' :: '\n' :: rest) = line :: lines rest := by
  induction line with
  | nil => simp only [List.nil_append, lines]
  | cons c line ih =>
    obtain ⟨hc, hline⟩ := List.forall_mem_cons.mp fun d hd => (ne_of_mem_of_not_mem hd hfeed : d ≠ '\n')
    refine lines_cons hc (fun _ => ?_) (ih fun hmem => hline _ hmem rfl)
    cases line with
    | nil => simp
    | cons d line => simpa using hline d List.mem_cons_self

theorem exists_lines_line {line : List Char} (hfeed : '\n' ∉ line) :
    ∃ found, trim found = trim line ∧ ∀ rest, lines (line ++ '\n' :: rest) = found :: lines rest := by
  by_cases hreturn : line.getLast? = some '\r'
  · obtain ⟨found, rfl⟩ := List.getLast?_eq_some_iff.mp hreturn
    refine ⟨found, (trim_append_blank isBlank_carriageReturn found).symm, fun rest => ?_⟩
    rw [List.append_assoc]
    exact lines_line_return (fun hmem => hfeed (List.mem_append_left _ hmem)) rest
  · exact ⟨line, rfl, lines_line hfeed hreturn⟩

theorem lineFeed_not_mem_lines (text : List Char) : ∀ line ∈ lines text, '\n' ∉ line := by
  fun_induction lines text with
  | case1 => exact nofun
  | case2 rest ih => exact List.forall_mem_cons.mpr ⟨List.not_mem_nil, ih⟩
  | case3 rest ih => exact List.forall_mem_cons.mpr ⟨List.not_mem_nil, ih⟩
  | case4 c rest hfeed hreturn hrest ih =>
    exact List.forall_mem_singleton.mpr fun h => hfeed (List.mem_singleton.mp h).symm
  | case5 c rest hfeed hreturn first later hrest ih =>
    rw [hrest] at ih
    obtain ⟨hfirst, hlater⟩ := List.forall_mem_cons.mp ih
    exact List.forall_mem_cons.mpr ⟨List.not_mem_cons_of_ne_of_not_mem (Ne.symm hfeed) hfirst, hlater⟩

theorem lines_of_lineFeed_not_mem {line : List Char} (hfeed : '\n' ∉ line) (hne : line ≠ []) :
    lines line = [line] := by
  induction line with
  | nil => contradiction
  | cons c rest ih =>
    have hc : c ≠ '\n' := fun h => hfeed (h ▸ List.mem_cons_self)
    have hrest : '\n' ∉ rest := fun h => hfeed (List.mem_cons_of_mem c h)
    cases rest with
    | nil =>
      rw [lines, lines]
      · exact hc
      · nofun
    | cons d rest =>
      refine lines_cons hc (fun _ hd => hrest ?_) (ih hrest (List.cons_ne_nil d rest))
      exact Option.some.inj hd ▸ List.mem_cons_self

theorem lines_flatMap {found : List (List Char)}
    (h : ∀ line ∈ found, '\n' ∉ line ∧ Trimmed line) :
    lines (found.flatMap (· ++ ['\n'])) = found := by
  induction found with
  | nil => rfl
  | cons line later ih =>
    obtain ⟨⟨hfeed, htrimmed⟩, hlater⟩ := List.forall_mem_cons.mp h
    rw [List.flatMap_cons, List.append_assoc, List.singleton_append]
    rw [lines_line hfeed htrimmed.getLast?_ne, ih hlater]

/-- A text is one line, or a line and a line feed before a shorter text. -/
@[elab_as_elim]
theorem line_induction {P : List Char → Prop} (last : ∀ line, '\n' ∉ line → P line)
    (more : ∀ line rest, '\n' ∉ line → P rest → P (line ++ '\n' :: rest)) : ∀ text, P text := by
  intro text
  by_cases hfeed : '\n' ∈ text
  · obtain ⟨line, rest, htext, hline⟩ := List.eq_append_cons_of_mem hfeed
    rw [htext]
    exact more line rest hline (line_induction last more rest)
  · exact last text hfeed
termination_by text => text.length
decreasing_by
  rw [htext, List.length_append, List.length_cons]
  omega

theorem rows_cons {c : Char} {text row : List Char} {later : List (List Char)} (hfeed : c ≠ '\n')
    (h : rows text = row :: later) : rows (c :: text) = (c :: row) :: later := by
  rw [rows, h]
  exact hfeed

theorem rows_of_lineFeed_not_mem {line : List Char} (hfeed : '\n' ∉ line) : rows line = [line] := by
  induction line with
  | nil => rfl
  | cons c rest ih =>
    obtain ⟨hc, hrest⟩ := List.ne_and_not_mem_of_not_mem_cons hfeed
    exact rows_cons (Ne.symm hc) (ih hrest)

theorem rows_append (before after : List Char) : rows (before ++ '\n' :: after) = rows before ++ rows after := by
  induction before with
  | nil => rfl
  | cons c before ih =>
    by_cases hc : c = '\n'
    · subst hc
      exact congrArg ([] :: ·) ih
    · obtain ⟨row, later, hrows⟩ := List.exists_cons_of_ne_nil (rows_ne_nil before)
      rw [hrows] at ih
      rw [List.cons_append, rows_cons hc ih, rows_cons hc hrows]
      rfl

theorem rows_line {line : List Char} (hfeed : '\n' ∉ line) (rest : List Char) :
    rows (line ++ '\n' :: rest) = line :: rows rest := by
  rw [rows_append, rows_of_lineFeed_not_mem hfeed]
  rfl

theorem exists_rows_append {c : Char} (hc : c ≠ '\n') (text : List Char) :
    ∃ earlier last, rows text = earlier ++ [last] ∧ rows (text ++ [c]) = earlier ++ [last ++ [c]] := by
  induction text using line_induction with
  | last line hfeed =>
    have hmore : '\n' ∉ line ++ [c] := by simp [hfeed, Ne.symm hc]
    exact ⟨[], line, rows_of_lineFeed_not_mem hfeed, rows_of_lineFeed_not_mem hmore⟩
  | more line rest hfeed ih =>
    obtain ⟨earlier, last, hrows, hmore⟩ := ih
    refine ⟨line :: earlier, last, ?_, ?_⟩
    · rw [rows_line hfeed, hrows, List.cons_append]
    · rw [List.append_assoc, List.cons_append, rows_line hfeed, hmore, List.cons_append]

end Text

namespace Token

theorem isNameChar_of_isBlank {c : Char} (h : Text.isBlank c = true) : isNameChar c = false := by
  have hnone : ∀ r ∈ Text.blankRanges, ∀ i < r.2 + 1 - r.1, r.1 + i < 0x10000 ∧ r.1 + i ≠ 0x5f ∧
      Text.inRanges Text.alphanumericLow (r.1 + i) = false ∧
      Text.inRanges Text.alphanumericMiddle (r.1 + i) = false := by
    decide +kernel
  obtain ⟨r, hr, hfirst, hlast⟩ := Text.exists_mem_of_inRanges h
  obtain ⟨hsmall, hunderscore, hlow, hmiddle⟩ := hnone r hr (c.toNat - r.1) (by omega)
  rw [Nat.add_sub_cancel' hfirst] at hsmall hunderscore hlow hmiddle
  have hne : (c == '_') = false := by
    rw [beq_eq_false_iff_ne]
    rintro rfl
    exact hunderscore rfl
  unfold isNameChar Text.isAlphanumeric
  simp only [hlow, hmiddle, hne, hsmall, if_true, ite_self, Bool.or_false]

theorem not_isBlank_of_isNameChar {c : Char} (h : isNameChar c = true) : Text.isBlank c = false := by
  cases hblank : Text.isBlank c with
  | false => rfl
  | true =>
    rw [isNameChar_of_isBlank hblank] at h
    contradiction

end Token

end SequenceChart
