import SequenceChart.Proofs.Outcome
import SequenceChart.Proofs.Script.Tokens

/-! Escapes read from left to right. A written message that can be read is a run of single characters and whole
escapes; what cannot be read has such a run before its first backslash that escapes nothing. -/

namespace SequenceChart.Escape

/-- Whether a written message is made of single characters and whole escapes, and what these stand for together. -/
inductive Spells : List Char → List Char → Prop
  | nil : Spells [] []
  | plain {c : Char} {raw text : List Char} : c ≠ '\\' → Spells raw text → Spells (c :: raw) (c :: text)
  | lineFeed {raw text : List Char} : Spells raw text → Spells ('\\' :: 'n' :: raw) ('\n' :: text)
  | backslash {raw text : List Char} : Spells raw text → Spells ('\\' :: '\\' :: raw) ('\\' :: text)

/-- What is wrong with a backslash that stands before the rest of a message. -/
inductive Breaks : List Char → Error → Prop
  | invalid {c : Char} {rest : List Char} : c ≠ 'n' → c ≠ '\\' → Breaks (c :: rest) (.invalid c)
  | dangling : Breaks [] .dangling

variable {raw before rest text : List Char} {fault : Error}

theorem decode_cons_of_ne {c : Char} (h : c ≠ '\\') (rest : List Char) :
    decode (c :: rest) = (decode rest).map (c :: ·) := by
  rw [decode]
  all_goals
    intro
    intros
    exact h ‹_›

theorem Spells.decode_append (h : Spells before text) (rest : List Char) :
    decode (before ++ rest) = (decode rest).map (text ++ ·) := by
  induction h with
  | nil => cases hrest : decode rest <;> simp [hrest, Except.map]
  | plain hplain _ ih =>
    rw [List.cons_append, decode_cons_of_ne hplain, ih, map_map]
    rfl
  | lineFeed _ ih | backslash _ ih =>
    rw [List.cons_append, List.cons_append, decode, ih, map_map]
    rfl

theorem Breaks.decode_eq_error (h : Breaks rest fault) : decode ('\\' :: rest) = .error fault := by
  cases h with
  | invalid hn hslash =>
    rw [decode]
    · exact fun h => hn h
    · exact fun h => hslash h
  | dangling => rfl

theorem spells_or_breaks (raw : List Char) :
    (∃ text, Spells raw text) ∨
      ∃ before text rest fault, raw = before ++ '\\' :: rest ∧ Spells before text ∧ Breaks rest fault := by
  induction raw using decode.induct with
  | case1 => exact .inl ⟨[], .nil⟩
  | case2 rest ih =>
    obtain ⟨text, htext⟩ | ⟨before, text, last, fault, rfl, htext, hbreaks⟩ := ih
    · exact .inl ⟨_, .lineFeed htext⟩
    · exact .inr ⟨_, _, last, fault, rfl, .lineFeed htext, hbreaks⟩
  | case3 rest ih =>
    obtain ⟨text, htext⟩ | ⟨before, text, last, fault, rfl, htext, hbreaks⟩ := ih
    · exact .inl ⟨_, .backslash htext⟩
    · exact .inr ⟨_, _, last, fault, rfl, .backslash htext, hbreaks⟩
  | case4 c rest hn hslash => exact .inr ⟨[], [], c :: rest, _, rfl, .nil, .invalid hn hslash⟩
  | case5 => exact .inr ⟨[], [], [], _, rfl, .nil, .dangling⟩
  | case6 c rest hn hslash hother hlast ih =>
    have hplain : c ≠ '\\' := by
      rintro rfl
      cases rest with
      | nil => exact hlast rfl rfl
      | cons d rest => exact hother d rest rfl rfl
    obtain ⟨text, htext⟩ | ⟨before, text, last, fault, rfl, htext, hbreaks⟩ := ih
    · exact .inl ⟨_, .plain hplain htext⟩
    · exact .inr ⟨_, _, last, fault, rfl, .plain hplain htext, hbreaks⟩

theorem Spells.decode_eq_ok (h : Spells raw text) : decode raw = .ok text := by
  have hall := h.decode_append []
  rw [List.append_nil, decode] at hall
  rw [hall, Except.map, List.append_nil]

theorem decode_eq_ok_iff : decode raw = .ok text ↔ Spells raw text := by
  refine ⟨fun h => ?_, Spells.decode_eq_ok⟩
  obtain ⟨found, hfound⟩ | ⟨before, found, rest, fault, rfl, hfound, hbreaks⟩ := spells_or_breaks raw
  · rw [hfound.decode_eq_ok] at h
    exact Except.ok.inj h ▸ hfound
  · rw [hfound.decode_append, hbreaks.decode_eq_error] at h
    contradiction

theorem decode_eq_error_iff : decode raw = .error fault ↔
    ∃ before text rest, raw = before ++ '\\' :: rest ∧ Spells before text ∧ Breaks rest fault := by
  constructor
  · intro h
    obtain ⟨text, htext⟩ | ⟨before, text, rest, found, rfl, htext, hbreaks⟩ := spells_or_breaks raw
    · rw [htext.decode_eq_ok] at h
      contradiction
    · rw [htext.decode_append, hbreaks.decode_eq_error] at h
      exact ⟨before, text, rest, rfl, htext, Except.error.inj h ▸ hbreaks⟩
  · rintro ⟨before, text, rest, rfl, htext, hbreaks⟩
    rw [htext.decode_append, hbreaks.decode_eq_error]
    rfl

theorem Spells.encode_eq (h : Spells raw text) (hraw : '\n' ∉ raw) : encode text = raw := by
  induction h with
  | nil => rfl
  | plain hplain _ ih =>
    obtain ⟨hfeed, hrest⟩ := not_or.mp (mt List.mem_cons.mpr hraw)
    rw [encode, if_neg hplain, if_neg (Ne.symm hfeed), ih hrest]
  | lineFeed _ ih =>
    simp only [List.mem_cons, not_or] at hraw
    rw [encode, if_neg (by decide), if_pos rfl, ih hraw.2.2]
  | backslash _ ih =>
    simp only [List.mem_cons, not_or] at hraw
    rw [encode, if_pos rfl, ih hraw.2.2]

/-- Writing and reading messages undo each other: every text is read back from its written form, and a message
without line feeds that can be read is the written form of what it is read as. No message fails to be read but one
with a backslash, behind single characters and whole escapes, that is followed by nothing or by a character it cannot
escape, and the fault is that of this backslash. -/
theorem decode_inverse_encode :
    (∀ text, decode (encode text) = .ok text) ∧
    (∀ raw text, encode text = raw ↔ '\n' ∉ raw ∧ decode raw = .ok text) ∧
    ∀ raw fault, decode raw = .error fault ↔
      ∃ before text rest, raw = before ++ '\\' :: rest ∧ Spells before text ∧ Breaks rest fault := by
  refine ⟨decode_encode, fun raw text => ⟨?_, ?_⟩, fun raw fault => decode_eq_error_iff⟩
  · rintro rfl
    exact ⟨lineFeed_not_mem_encode text, decode_encode text⟩
  · rintro ⟨hraw, hdecode⟩
    exact (decode_eq_ok_iff.mp hdecode).encode_eq hraw

end SequenceChart.Escape
