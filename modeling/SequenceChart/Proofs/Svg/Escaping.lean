import Mathlib.Data.List.Infix
import Mathlib.Data.Set.Function
import SequenceChart.Proofs.Svg.Markup

/-! Escaped text read back. Entities give the characters that they stand for, and a text that was escaped has no other
ampersands; so what comes back is the text without the characters that no document may hold, also where the text itself
looks as if it were escaped. -/

namespace SequenceChart.Xml

/-- The text with each of the five entities replaced by its character, from left to right. An ampersand that starts none
of them stands for itself. -/
def unescape : List Char → List Char
  | '&' :: 'a' :: 'm' :: 'p' :: ';' :: later => '&' :: unescape later
  | '&' :: 'l' :: 't' :: ';' :: later => '<' :: unescape later
  | '&' :: 'g' :: 't' :: ';' :: later => '>' :: unescape later
  | '&' :: 'q' :: 'u' :: 'o' :: 't' :: ';' :: later => '"' :: unescape later
  | '&' :: 'a' :: 'p' :: 'o' :: 's' :: ';' :: later => '\'' :: unescape later
  | c :: later => c :: unescape later
  | [] => []

theorem unescape_entity {c : Char} {name : String} (h : (c, name) ∈ entities) (later : List Char) :
    unescape ('&' :: (name.toList ++ ';' :: later)) = c :: unescape later := by
  simp only [entities, List.mem_cons, List.not_mem_nil, or_false, Prod.mk.injEq] at h
  obtain ⟨rfl, rfl⟩ | ⟨rfl, rfl⟩ | ⟨rfl, rfl⟩ | ⟨rfl, rfl⟩ | ⟨rfl, rfl⟩ := h <;> rfl

theorem unescape_cons {c : Char} (h : c ≠ '&') (later : List Char) :
    unescape (c :: later) = c :: unescape later := by
  rw [unescape] <;> exact fun _ hc _ => h hc

theorem legal_entity {c : Char} {name : String} (h : (c, name) ∈ entities) :
    ∀ d ∈ '&' :: (name.toList ++ [';']), Legal d := by
  simp only [entities, List.mem_cons, List.not_mem_nil, or_false, Prod.mk.injEq] at h
  obtain ⟨-, rfl⟩ | ⟨-, rfl⟩ | ⟨-, rfl⟩ | ⟨-, rfl⟩ | ⟨-, rfl⟩ := h <;> decide

theorem ampersand_not_mem_entity {c : Char} {name : String} (h : (c, name) ∈ entities) :
    '&' ∉ name.toList ++ [';'] := by
  simp only [entities, List.mem_cons, List.not_mem_nil, or_false, Prod.mk.injEq] at h
  obtain ⟨-, rfl⟩ | ⟨-, rfl⟩ | ⟨-, rfl⟩ | ⟨-, rfl⟩ | ⟨-, rfl⟩ := h <;> decide

theorem suffix_of_not_mem {c : Char} {front later tail : List Char} (h : c ∉ front)
    (hsuffix : c :: tail <:+ front ++ later) : c :: tail <:+ later := by
  induction front with
  | nil => exact hsuffix
  | cons d front ih =>
    obtain ⟨hd, hfront⟩ := not_or.mp (mt List.mem_cons.mpr h)
    obtain hall | hrest := List.suffix_cons_iff.mp hsuffix
    · exact absurd (List.cons.inj hall).1 hd
    · exact ih hfront hrest

namespace Spells

variable {text written : List Char} (h : Spells text written)

include h

/-- Reading goes from entity to entity: none is taken for the start of another, and none is cut in two. -/
theorem unescape_eq : unescape written = text := by
  induction h with
  | nil => rfl
  | plain _ hc _ ih =>
    rw [unescape_cons (List.ne_of_not_mem_cons hc), ih]
  | entity hname _ ih => rw [unescape_entity hname, ih]

theorem entity_of_suffix {tail : List Char} (hsuffix : '&' :: tail <:+ written) :
    ∃ c name later, (c, name) ∈ entities ∧ tail = name.toList ++ ';' :: later := by
  induction h with
  | nil => exact absurd (List.suffix_nil.mp hsuffix) (List.cons_ne_nil _ _)
  | plain _ hc _ ih =>
    obtain hall | hrest := List.suffix_cons_iff.mp hsuffix
    · exact absurd (List.cons.inj hall).1.symm (List.ne_of_not_mem_cons hc)
    · exact ih hrest
  | @entity c name _ written hname _ ih =>
    obtain hall | hrest := List.suffix_cons_iff.mp hsuffix
    · exact ⟨c, name, written, hname, (List.cons.inj hall).2⟩
    · rw [List.append_cons] at hrest
      exact ih (suffix_of_not_mem (ampersand_not_mem_entity hname) hrest)

theorem legal_of_mem {c : Char} (hc : c ∈ written) : Legal c := by
  induction h with
  | nil => contradiction
  | plain hlegal _ _ ih =>
    obtain rfl | hc := List.mem_cons.mp hc
    · exact hlegal
    · exact ih hc
  | entity hname _ ih =>
    rw [List.append_cons, ← List.cons_append] at hc
    obtain hentity | hc := List.mem_append.mp hc
    · exact legal_entity hname c hentity
    · exact ih hc

end Spells

theorem not_mem_escapeChar {c : Char} (h : c ∈ ['<', '>', '"', '\'']) (d : Char) : c ∉ escapeChar d := by
  have hentity : ∀ written ∈ ["&amp;", "&lt;", "&gt;", "&quot;", "&apos;"],
      ∀ c ∈ ['<', '>', '"', '\''], c ∉ written.toList := by decide
  unfold escapeChar
  split_ifs with hamp hlt hgt hquot hapos hblank hcontrol
  · exact hentity "&amp;" (by decide) c h
  · exact hentity "&lt;" (by decide) c h
  · exact hentity "&gt;" (by decide) c h
  · exact hentity "&quot;" (by decide) c h
  · exact hentity "&apos;" (by decide) c h
  · rintro hc
    obtain rfl := List.mem_singleton.mp hc
    simp [hlt, hgt, hquot, hapos] at h
  · exact List.not_mem_nil
  · rintro hc
    obtain rfl := List.mem_singleton.mp hc
    simp [hlt, hgt, hquot, hapos] at h

theorem not_mem_escape {c : Char} (h : c ∈ ['<', '>', '"', '\'']) (text : List Char) : c ∉ escape text := by
  intro hc
  obtain ⟨d, -, hd⟩ := List.mem_flatMap.mp hc
  exact not_mem_escapeChar h d hd

theorem unescape_escape (text : List Char) : unescape (escape text) = legal text := (spells_escape text).unescape_eq

theorem escape_legal (text : List Char) : escape (legal text) = escape text := by
  induction text with
  | nil => rfl
  | cons c text ih =>
    unfold legal escape at *
    by_cases hc : Legal c
    · rw [List.filter_cons_of_pos (by simpa using hc), List.flatMap_cons, List.flatMap_cons, ih]
    · rw [List.filter_cons_of_neg (by simpa using hc), List.flatMap_cons, escapeChar_of_not_legal hc, ih,
        List.nil_append]

theorem escape_eq_iff {text other : List Char} : escape text = escape other ↔ legal text = legal other := by
  constructor
  · intro h
    rw [← unescape_escape, h, unescape_escape]
  · intro h
    rw [← escape_legal text, h, escape_legal]

/-- Escaping loses nothing that is legal and lets nothing out that is not. What is read back is the text without the
characters that XML 1.0 does not allow; what is written has none of these, none of the characters of markup, and no
ampersand that does not start one of the five entities. So no two texts of legal characters are written alike, whatever
entities they seem to have. -/
theorem escape_keeps_legal :
    (∀ text, unescape (escape text) = legal text) ∧
    (∀ text, (∀ c ∈ escape text, Legal c) ∧ (∀ c ∈ ['<', '>', '"', '\''], c ∉ escape text) ∧
      ∀ tail, '&' :: tail <:+ escape text →
        ∃ c name later, (c, name) ∈ entities ∧ tail = name.toList ++ ';' :: later) ∧
    (∀ text other, escape text = escape other ↔ legal text = legal other) ∧
    Set.InjOn escape {text | ∀ c ∈ text, Legal c} := by
  refine ⟨unescape_escape, fun text => ?_, fun _ _ => escape_eq_iff, ?_⟩
  · have hspells := spells_escape text
    exact ⟨fun _ => hspells.legal_of_mem, fun _ hc => not_mem_escape hc text, fun _ => hspells.entity_of_suffix⟩
  · intro text htext other hother h
    have hsame := escape_eq_iff.mp h
    rwa [legal, legal, List.filter_eq_self.mpr (by simpa using htext),
      List.filter_eq_self.mpr (by simpa using hother)] at hsame

example : escape "&lt;\u0000<".toList = "&amp;lt;&lt;".toList ∧ unescape "&amp;lt;&lt;".toList = "&lt;<".toList := by
  decide

end SequenceChart.Xml
