import Mathlib.Data.List.Nodup
import Mathlib.Tactic.SplitIfs
import SequenceChart.Proofs.Text
import SequenceChart.Svg.Xml

/-! Well-formed XML: which texts are documents, and which tree of elements a document is. Names are plain ASCII
words and no element stands beside markup of another kind, which is all that written elements need. -/

namespace SequenceChart.Xml

def Legal (c : Char) : Prop :=
  c = '\t' ∨ c = '\n' ∨ c = '\r' ∨ (0x20 ≤ c.toNat ∧ c.toNat ≤ 0xD7FF) ∨
    (0xE000 ≤ c.toNat ∧ c.toNat ≤ 0xFFFD) ∨ 0x10000 ≤ c.toNat

instance (c : Char) : Decidable (Legal c) := inferInstanceAs (Decidable (_ ∨ _))

def entities : List (Char × String) := [('&', "amp"), ('<', "lt"), ('>', "gt"), ('"', "quot"), ('\'', "apos")]

/-- A text, and how it is written as a value or a content. What markup is made of stands in it as an entity
only, and an ampersand starts nothing else. -/
inductive Spells : List Char → List Char → Prop
  | nil : Spells [] []
  | plain {c : Char} {text written : List Char} :
      Legal c → c ∉ ['&', '<', '>', '"'] → Spells text written → Spells (c :: text) (c :: written)
  | entity {c : Char} {name : String} {text written : List Char} :
      (c, name) ∈ entities → Spells text written → Spells (c :: text) ('&' :: (name.toList ++ ';' :: written))

def isName (name : String) : Bool :=
  match name.toList with
  | [] => false
  | c :: rest => c.isAlpha && rest.all fun d => d.isAlphanum || d == '-'

inductive Attributes : List Attribute → List Char → Prop
  | nil : Attributes [] []
  | cons {name : String} {value written later : List Char} {more : List Attribute} :
      isName name = true → name ∉ more.map Attribute.name → Spells value written → Attributes more later →
      Attributes (⟨name, value⟩ :: more) (' ' :: (name.toList ++ '=' :: '"' :: (written ++ '"' :: later)))

/-- An element with the text before its first child, and its children with the text behind each of them. -/
inductive Tree where
  | node (name : String) (attributes : List Attribute) (text : List Char) (children : List (Tree × List Char))

mutual

inductive Written : Tree → List Char → Prop
  | empty {name : String} {attributes : List Attribute} {tag : List Char} :
      isName name = true → Attributes attributes tag →
      Written (.node name attributes [] []) ('<' :: (name.toList ++ (tag ++ ['/', '>'])))
  | filled {name : String} {attributes : List Attribute} {children : List (Tree × List Char)}
      {tag text written inside : List Char} :
      isName name = true → Attributes attributes tag → Spells text written → WrittenAll children inside →
      Written (.node name attributes text children)
        ('<' :: (name.toList ++ (tag ++ '>' :: (written ++ (inside ++ '<' :: '/' :: (name.toList ++ ['>']))))))

inductive WrittenAll : List (Tree × List Char) → List Char → Prop
  | nil : WrittenAll [] []
  | cons {child : Tree} {children : List (Tree × List Char)} {element after written later : List Char} :
      Written child element → Spells after written → WrittenAll children later →
      WrittenAll ((child, after) :: children) (element ++ (written ++ later))

end

/-- Whether a text is a document with this root; blanks may follow the root. -/
def Document (root : Tree) (text : List Char) : Prop :=
  ∃ element blank, Written root element ∧ (∀ c ∈ blank, c ∈ [' ', '\t', '\n', '\r']) ∧ text = element ++ blank

def legal (text : List Char) : List Char := text.filter fun c => Legal c

/-- What lies between the ranges of legal characters are surrogates, which are no characters, and the two that
escaping leaves out. -/
theorem legal_iff {c : Char} (hblank : ¬ (c = '\t' ∨ c = '\n' ∨ c = '\r')) :
    Legal c ↔ ¬ (c < ' ' ∨ c = '\ufffe' ∨ c = '\uffff') := by
  have hvalid : c.toNat < 0xD800 ∨ 0xDFFF < c.toNat ∧ c.toNat < 0x110000 := c.valid
  have hspace : c < ' ' ↔ c.toNat < 0x20 := Iff.rfl
  have hfirst : c = '\ufffe' ↔ c.toNat = 0xFFFE := Char.toNat_inj.symm
  have hsecond : c = '\uffff' ↔ c.toNat = 0xFFFF := Char.toNat_inj.symm
  rw [not_or, not_or] at hblank
  rw [Legal, hspace, hfirst, hsecond]
  constructor
  · rintro (htab | hfeed | hreturn | hrange)
    · exact absurd htab hblank.1
    · exact absurd hfeed hblank.2.1
    · exact absurd hreturn hblank.2.2
    · omega
  · intro hrange
    exact .inr (.inr (.inr (by omega)))

theorem escapeChar_of_not_legal {c : Char} (h : ¬ Legal c) : escapeChar c = [] := by
  have hlegal : ∀ d ∈ ['&', '<', '>', '"', '\''], Legal d := by decide
  have hmarkup : ∀ d ∈ ['&', '<', '>', '"', '\''], c ≠ d := by
    rintro d hd rfl
    exact h (hlegal c hd)
  simp only [List.forall_mem_cons] at hmarkup
  obtain ⟨hamp, hlt, hgt, hquot, hapos, _⟩ := hmarkup
  have hblank : ¬ (c = '\t' ∨ c = '\n' ∨ c = '\r') := by
    rintro (rfl | rfl | rfl) <;> exact h (by decide)
  have hcontrol := not_not.mp (mt (legal_iff hblank).mpr h)
  rw [escapeChar, if_neg hamp, if_neg hlt, if_neg hgt, if_neg hquot, if_neg hapos, if_neg hblank, if_pos hcontrol]

theorem spells_escapeChar {c : Char} (h : Legal c) {text written : List Char} (hlater : Spells text written) :
    Spells (c :: text) (escapeChar c ++ written) := by
  unfold escapeChar
  split_ifs with hamp hlt hgt hquot hapos hblank hcontrol
  · exact hamp ▸ .entity (show ('&', "amp") ∈ entities by decide) hlater
  · exact hlt ▸ .entity (show ('<', "lt") ∈ entities by decide) hlater
  · exact hgt ▸ .entity (show ('>', "gt") ∈ entities by decide) hlater
  · exact hquot ▸ .entity (show ('"', "quot") ∈ entities by decide) hlater
  · exact hapos ▸ .entity (show ('\'', "apos") ∈ entities by decide) hlater
  · exact .plain h (by simp [*]) hlater
  · exact absurd hcontrol ((legal_iff hblank).mp h)
  · exact .plain h (by simp [*]) hlater

theorem spells_escape (text : List Char) : Spells (legal text) (escape text) := by
  induction text with
  | nil => exact .nil
  | cons c text ih =>
    unfold legal escape at *
    rw [List.flatMap_cons]
    by_cases hc : Legal c
    · rw [List.filter_cons_of_pos (by simpa using hc)]
      exact spells_escapeChar hc ih
    · rw [List.filter_cons_of_neg (by simpa using hc), escapeChar_of_not_legal hc]
      exact ih

def Bare (text : List Char) : Prop := ∀ c ∈ text, escapeChar c = [c]

instance (text : List Char) : Decidable (Bare text) := List.decidableBAll _ text

theorem escape_of_bare {text : List Char} (h : Bare text) : escape text = text := by
  induction text with
  | nil => rfl
  | cons c text ih =>
    obtain ⟨hc, hlater⟩ := List.forall_mem_cons.mp h
    have htext : escape text = text := ih hlater
    unfold escape at *
    rw [List.flatMap_cons, hc, htext, List.singleton_append]

/-- The element as it is read: characters that a document may not hold are left out. -/
def Element.tree (e : Element) : Tree :=
  .node e.name (e.attributes.map fun a => ⟨a.name, legal a.value⟩) (legal (e.content.getD [])) []

structure Element.Sound (e : Element) : Prop where
  name : isName e.name = true
  attributes : ∀ a ∈ e.attributes, isName a.name = true
  distinct : (e.attributes.map Attribute.name).Nodup

theorem Element.sound_of_sublist {e : Element} (names : List String) (hname : isName e.name = true)
    (hnames : ∀ name ∈ names, isName name = true) (hdistinct : names.Nodup)
    (h : (e.attributes.map Attribute.name).Sublist names) : e.Sound where
  name := hname
  attributes a ha := hnames a.name (h.subset (List.mem_map_of_mem ha))
  distinct := h.nodup hdistinct

theorem attributes_write {attributes : List Attribute} (hname : ∀ a ∈ attributes, isName a.name = true)
    (hdistinct : (attributes.map Attribute.name).Nodup) :
    Attributes (attributes.map fun a => ⟨a.name, legal a.value⟩) (writeAttributes attributes) := by
  induction attributes with
  | nil => exact .nil
  | cons a attributes ih =>
    obtain ⟨ha, hmore⟩ := List.forall_mem_cons.mp hname
    obtain ⟨hfresh, hdistinct⟩ := List.nodup_cons.mp hdistinct
    have hcons := Attributes.cons ha (by simpa using hfresh) (spells_escape a.value) (ih hmore hdistinct)
    simpa [writeAttributes, Attribute.write] using hcons

theorem Element.Sound.written {e : Element} (h : e.Sound) :
    ∃ element, e.write = element ++ ['\n'] ∧ Written e.tree element := by
  have hattributes := attributes_write h.attributes h.distinct
  obtain ⟨name, attributes, content⟩ := e
  cases content with
  | none =>
    refine ⟨_, ?_, .empty h.name hattributes⟩
    simp [write]
  | some text =>
    refine ⟨_, ?_, .filled h.name hattributes (spells_escape text) .nil⟩
    simp [write, closeTag]

theorem writtenAll_write {elements : List Element} (h : ∀ e ∈ elements, e.Sound) :
    WrittenAll (elements.map fun e => (e.tree, ['\n'])) (elements.flatMap Element.write) := by
  induction elements with
  | nil => exact .nil
  | cons e elements ih =>
    obtain ⟨he, hmore⟩ := List.forall_mem_cons.mp h
    obtain ⟨element, hwrite, hwritten⟩ := he.written
    rw [List.map_cons, List.flatMap_cons, hwrite, List.append_assoc]
    exact .cons hwritten (.plain (by decide) (by decide) .nil) (ih hmore)

theorem document_tags {name : String} {attributes : List Attribute} {elements : List Element}
    (hroot : Element.Sound ⟨name, attributes, none⟩) (h : ∀ e ∈ elements, e.Sound) :
    Document
      (.node name (attributes.map fun a => ⟨a.name, legal a.value⟩) ['\n']
        (elements.map fun e => (e.tree, ['\n'])))
      (openTag name attributes ++ (elements.flatMap Element.write ++ closeTag name)) := by
  have hattributes := attributes_write hroot.attributes hroot.distinct
  refine ⟨_, ['\n'], .filled hroot.name hattributes (.plain (by decide) (by decide) .nil)
    (writtenAll_write h), by decide, ?_⟩
  simp [openTag, closeTag]

theorem isName_chars {name : String} (h : isName name = true) :
    name.toList ≠ [] ∧ ∀ c ∈ name.toList, c ≠ '<' ∧ c ≠ '/' := by
  have hmarkup : ∀ c : Char, (c.isAlphanum || c == '-') = true → c ≠ '<' ∧ c ≠ '/' := by
    rintro c hc
    constructor <;> (rintro rfl; contradiction)
  unfold isName at h
  split at h
  · exact absurd h Bool.false_ne_true
  · rename_i c rest hlist
    rw [Bool.and_eq_true] at h
    rw [hlist]
    refine ⟨List.cons_ne_nil _ _, List.forall_mem_cons.mpr ⟨hmarkup c ?_, fun d hd => hmarkup d ?_⟩⟩
    · simp [Char.isAlphanum, h.1]
    · exact List.all_eq_true.mp h.2 d hd

theorem Spells.lt_not_mem {text written : List Char} (h : Spells text written) : '<' ∉ written := by
  induction h with
  | nil => exact List.not_mem_nil
  | plain hlegal hmarkup hlater ih =>
    rw [List.mem_cons, not_or]
    refine ⟨?_, ih⟩
    rintro rfl
    exact hmarkup (by decide)
  | @entity c name text written hentity hlater ih =>
    have hname : ∀ entry ∈ entities, '<' ∉ '&' :: (entry.2.toList ++ [';']) := by decide
    have hfront := hname _ hentity
    simp only [List.mem_cons, List.mem_append, not_or] at hfront ⊢
    exact ⟨hfront.1, hfront.2.1, hfront.2.2.1, ih⟩

theorem Attributes.lt_not_mem {attributes : List Attribute} {tag : List Char} (h : Attributes attributes tag) :
    '<' ∉ tag := by
  induction h with
  | nil => exact List.not_mem_nil
  | @cons name value written later more hname hfresh hspells hmore ih =>
    have hchars : '<' ∉ name.toList := fun hmem => ((isName_chars hname).2 _ hmem).1 rfl
    have hwritten := hspells.lt_not_mem
    simp [hchars, hwritten, ih]

theorem Written.getLast {t : Tree} {element : List Char} (h : Written t element) : ∃ front, element = front ++ ['>'] := by
  cases h with
  | @empty name attributes tag hname hattributes =>
    exact ⟨'<' :: (name.toList ++ (tag ++ ['/'])), by simp⟩
  | @filled name attributes children tag text written inside hname hattributes hspells hchildren =>
    exact ⟨'<' :: (name.toList ++ (tag ++ '>' :: (written ++ (inside ++ '<' :: '/' :: name.toList)))), by simp⟩

theorem Document.count_lt {root : Tree} {text : List Char} (h : Document root (text ++ ['/', '>', '\n'])) :
    text.count '<' = 1 := by
  obtain ⟨element, blank, hwritten, hblank, heq⟩ := h
  obtain ⟨front, rfl⟩ := hwritten.getLast
  -- Blanks end where the element does.
  have hend : text ++ ['/'] = front := by
    have hreverse := congrArg (fun text => text.reverse.dropWhile (· ∈ [' ', '\t', '\n', '\r'])) heq
    have hall : ∀ c ∈ blank.reverse, decide (c ∈ [' ', '\t', '\n', '\r']) = true := by
      simpa using hblank
    rw [List.reverse_append, List.reverse_append, List.dropWhile_append_of_pos hall] at hreverse
    exact List.reverse_inj.mp (by simpa using hreverse)
  subst hend
  generalize hall : text ++ ['/'] ++ ['>'] = element at hwritten
  cases hwritten with
  | @empty name attributes tag hname hattributes =>
    have htext : text = '<' :: (name.toList ++ tag) := by
      refine (List.append_left_inj ['/', '>']).mp ?_
      simpa using hall
    have hchars : '<' ∉ name.toList := fun hmem => ((isName_chars hname).2 _ hmem).1 rfl
    rw [htext, List.count_cons_self, List.count_append, List.count_eq_zero.mpr hchars,
      List.count_eq_zero.mpr hattributes.lt_not_mem]
  | @filled name attributes children tag content written inside hname hattributes hspells hchildren =>
    obtain ⟨hne, hchars⟩ := isName_chars hname
    obtain ⟨front, last, hlast⟩ := (List.eq_nil_or_concat _).resolve_left hne
    have hreverse := congrArg List.reverse hall
    simp [hlast] at hreverse
    exact absurd hreverse.1.symm (hchars last (by simp [hlast])).2

end SequenceChart.Xml
