import SequenceChart.Diagram.Summary
import SequenceChart.Proofs.Diagram.Loaded
import SequenceChart.Proofs.Json.Reader

/-! Summaries as JSON. A summary is a document unless a text in it has a control character that no letter
stands for, and as a document it says what the diagram says. -/

namespace SequenceChart

namespace Summary

variable {ι : Type}

def entry (name : String) (v : Json) : List Nat × Json := (Json.textUnits name.toList, v)

def actorValue (a : Actor ι) : Json :=
  .object [entry "name" (.ofText a.name), entry "label" (.ofText a.label), entry "rank" (.number a.rank)]

/-- What the summary of a diagram is to say. -/
def value (d : Diagram ι) : Json :=
  .object (d.title.toList.map (fun title => entry "title" (.ofText title)) ++
    [entry "actors" (.array (d.actors.map actorValue)), entry "itemCount" (.number d.itemCount)])

def texts (d : Diagram ι) : List String := d.title.toList ++ d.actors.flatMap fun a => [a.name, a.label]

/-- Whether a character is quoted as a string may have it: control characters need a letter. -/
def Quotable (c : Char) : Prop := 0x20 ≤ c.toNat ∨ c = '\n' ∨ c = '\r' ∨ c = '\t'

instance (c : Char) : Decidable (Quotable c) := inferInstanceAs (Decidable (_ ∨ _))

theorem characters_quotedChar {c : Char} (h : Quotable c) {units : List Nat} {later : List Char}
    (hlater : Json.Characters units later) :
    Json.Characters (Json.charUnits c ++ units) (quotedChar c ++ later) := by
  unfold quotedChar
  split_ifs
  case neg => exact .plain ⟨by unfold Quotable at h; tauto, ‹_›, ‹_›⟩ hlater
  all_goals
    subst c
    exact .letter rfl hlater

theorem characters_quoted {text : List Char} (h : ∀ c ∈ text, Quotable c) :
    Json.Characters (Json.textUnits text) (text.flatMap quotedChar) := by
  induction text with
  | nil => exact .nil
  | cons c text ih =>
    obtain ⟨hc, hlater⟩ := List.forall_mem_cons.mp h
    exact characters_quotedChar hc (ih hlater)

theorem spells_quoted {text : String} (h : ∀ c ∈ text.toList, Quotable c) :
    Json.Spells (.value (.ofText text)) (quoted text) :=
  .string (characters_quoted h)

theorem spells_element {v : Json} {text : List Char} (h : Json.Spells (.value v) text) :
    Json.Spells (.element v) text := by
  have helement := Json.Spells.element (List.forall_mem_nil _) h (List.forall_mem_nil _)
  rwa [List.nil_append, List.append_nil] at helement

theorem spells_member {name : String} (hname : ∀ c ∈ name.toList, Quotable c) {v : Json} {text : List Char}
    (h : Json.Spells (.value v) text) :
    Json.Spells (.member (Json.textUnits name.toList) v) (member name text) := by
  have hmember := Json.Spells.member (List.forall_mem_nil _) (characters_quoted hname) (List.forall_mem_nil _)
    (spells_element h)
  simpa [member, quoted] using hmember

theorem spells_elements {vs : List Json} {parts : List (List Char)}
    (h : List.Forall₂ (fun v text => Json.Spells (.value v) text) vs parts) :
    Json.Spells (.elements vs) ([','].intercalate parts) := by
  induction h with
  | nil => exact .noElements (List.forall_mem_nil _)
  | cons hv hvs ih =>
    cases hvs with
    | nil =>
      rw [List.intercalate_singleton]
      exact .oneElement (spells_element hv)
    | cons =>
      rw [List.intercalate_cons_cons, List.append_assoc, List.singleton_append]
      exact .moreElements (spells_element hv) ih

theorem spells_members {ms : List (List Nat × Json)} {parts : List (List Char)}
    (h : List.Forall₂ (fun m text => Json.Spells (.member m.1 m.2) text) ms parts) :
    Json.Spells (.members ms) ([','].intercalate parts) := by
  induction h with
  | nil => exact .noMembers (List.forall_mem_nil _)
  | cons hm hms ih =>
    cases hms with
    | nil =>
      rw [List.intercalate_singleton]
      exact .oneMember hm
    | cons =>
      rw [List.intercalate_cons_cons, List.append_assoc, List.singleton_append]
      exact .moreMembers hm ih

theorem spells_number (n : Nat) : Json.Spells (.value (.number n)) (number n) := by
  have hwhole : Json.Whole (number n) := Json.whole_toDigits n
  have hvalue : Numeral.digitsValue (number n) = n := Nat.ofDigitChars_toDigits (by decide) (by decide)
  have hnumber := Json.Unsigned.mk hwhole .none .none
  rw [Json.decimal, List.append_nil, hvalue] at hnumber
  simpa using Json.Spells.number (.unsigned hnumber)

theorem spells_actor {a : Actor ι} (hname : ∀ c ∈ a.name.toList, Quotable c)
    (hlabel : ∀ c ∈ a.label.toList, Quotable c) : Json.Spells (.value (actorValue a)) (actor a) :=
  .object (spells_members
    (.cons (spells_member (by decide) (spells_quoted hname))
      (.cons (spells_member (by decide) (spells_quoted hlabel))
        (.cons (spells_member (by decide) (spells_number a.rank)) .nil))))

theorem document_diagram {d : Diagram ι} (h : ∀ text ∈ texts d, ∀ c ∈ text.toList, Quotable c) :
    Json.Document (value d) (diagram d) := by
  obtain ⟨htitle, hactors⟩ := List.forall_mem_append.mp h
  refine spells_element (.object (spells_members (List.rel_append ?_ ?_)))
  · cases hd : d.title with
    | none => exact .nil
    | some title =>
      have htext := htitle title (by rw [hd]; exact List.mem_singleton_self title)
      exact .cons (spells_member (by decide) (spells_quoted htext)) .nil
  · refine .cons (spells_member (by decide) (.array (spells_elements ?_)))
      (.cons (spells_member (by decide) (spells_number d.itemCount)) .nil)
    rw [List.forall₂_map_left_iff, List.forall₂_map_right_iff, List.forall₂_same]
    intro a ha
    have htexts := fun text htext => hactors text (List.mem_flatMap.mpr ⟨a, ha, htext⟩)
    exact spells_actor (htexts a.name (by simp)) (htexts a.label (by simp))

theorem mem_intercalate {c : Char} {part : List Char} {parts : List (List Char)} (hpart : part ∈ parts)
    (hc : c ∈ part) : c ∈ [','].intercalate parts := by
  induction parts with
  | nil => contradiction
  | cons first parts ih =>
    cases parts with
    | nil =>
      rw [List.intercalate_singleton]
      exact List.mem_singleton.mp hpart ▸ hc
    | cons second parts =>
      rw [List.intercalate_cons_cons, List.append_assoc]
      obtain rfl | hlater := List.mem_cons.mp hpart
      · exact List.mem_append_left _ hc
      · exact List.mem_append_right _ (List.mem_append_right _ (ih hlater))

theorem mem_quoted {text : String} {c : Char} (hc : c ∈ text.toList) (h : ¬ Quotable c) : c ∈ quoted text := by
  have hself : c ∈ quotedChar c := by
    unfold quotedChar
    split_ifs <;> first | exact List.mem_singleton_self c | (subst c; exact absurd (by decide) h)
  refine List.mem_cons_of_mem _ (List.mem_append_left _ ?_)
  exact List.mem_flatMap.mpr ⟨c, hc, hself⟩

theorem mem_member {name : String} {value : List Char} {c : Char} (hc : c ∈ value) : c ∈ member name value :=
  List.mem_append_right _ (List.mem_cons_of_mem _ hc)

theorem mem_object {c : Char} {part : List Char} {members : List (List Char)} (hpart : part ∈ members)
    (hc : c ∈ part) : c ∈ object members :=
  List.mem_cons_of_mem _ (List.mem_append_left _ (mem_intercalate hpart hc))

theorem mem_array {c : Char} {part : List Char} {elements : List (List Char)} (hpart : part ∈ elements)
    (hc : c ∈ part) : c ∈ array elements :=
  List.mem_cons_of_mem _ (List.mem_append_left _ (mem_intercalate hpart hc))

theorem mem_actor {a : Actor ι} {text : String} (htext : text = a.name ∨ text = a.label) {c : Char}
    (hc : c ∈ quoted text) : c ∈ actor a := by
  obtain rfl | rfl := htext
  · exact mem_object List.mem_cons_self (mem_member hc)
  · exact mem_object (List.mem_cons_of_mem _ List.mem_cons_self) (mem_member hc)

theorem mem_diagram {d : Diagram ι} {text : String} (htext : text ∈ texts d) {c : Char} (hc : c ∈ quoted text) :
    c ∈ diagram d := by
  obtain htitle | hactors := List.mem_append.mp htext
  · exact mem_object (List.mem_append_left _ (List.mem_map_of_mem htitle)) (mem_member hc)
  · obtain ⟨a, ha, htext⟩ := List.mem_flatMap.mp hactors
    have hactor := mem_actor (by simpa using htext) hc
    refine mem_object (List.mem_append_right _ List.mem_cons_self) (mem_member ?_)
    exact mem_array (List.mem_map_of_mem ha) hactor

theorem quotable_of_document {d : Diagram ι} {v : Json} (h : Json.Document v (diagram d)) :
    ∀ text ∈ texts d, ∀ c ∈ text.toList, Quotable c := by
  intro text htext c hc
  by_contra hquote
  obtain hvisible | hspace := Json.Spells.visible h c (mem_diagram htext (mem_quoted hc hquote))
  · exact hquote (.inl hvisible)
  · obtain rfl | rfl | rfl | rfl := Json.isSpace_iff.mp hspace <;> exact hquote (by decide)

theorem title_inj {title other : Option String}
    (h : title.toList.map (fun t => entry "title" (.ofText t)) =
      other.toList.map (fun t => entry "title" (.ofText t))) : title = other := by
  cases title <;> cases other
  · rfl
  · contradiction
  · contradiction
  · obtain ⟨hentry, _⟩ := List.cons_eq_cons.mp h
    rw [Json.ofText_inj (Prod.mk.inj hentry).2]

theorem actorValue_inj {a b : Actor ι} (h : actorValue a = actorValue b) :
    (a.name, a.label, a.rank) = (b.name, b.label, b.rank) := by
  simp only [actorValue, entry, Json.object.injEq, List.cons.injEq, Prod.mk.injEq, Json.number.injEq,
    true_and, and_true] at h
  obtain ⟨hname, hlabel, hrank⟩ := h
  rw [Json.ofText_inj hname, Json.ofText_inj hlabel, Nat.cast_injective hrank]

/-- What a summary says settles the title, the names, labels and ranks of the actors, and the number of
items. -/
theorem value_inj {d e : Diagram ι} (h : value d = value e) :
    d.title = e.title ∧
      d.actors.map (fun a => (a.name, a.label, a.rank)) = e.actors.map (fun a => (a.name, a.label, a.rank)) ∧
      d.itemCount = e.itemCount := by
  obtain ⟨htitle, hrest⟩ := List.append_inj' (Json.object.inj h) rfl
  simp only [entry, List.cons.injEq, Prod.mk.injEq, Json.array.injEq, Json.number.injEq, true_and,
    and_true] at hrest
  obtain ⟨hactors, hcount⟩ := hrest
  refine ⟨title_inj htitle, ?_, Nat.cast_injective hcount⟩
  rw [← List.forall₂_eq_eq_eq, List.forall₂_map_left_iff, List.forall₂_map_right_iff] at hactors ⊢
  exact hactors.imp fun _ _ => actorValue_inj

end Summary

namespace Script

/-- The summary of a diagram is a document exactly if no text in it has a control character other than line
feed, carriage return and tab, and then it says what the diagram says, actors in the order of their ranks. -/
theorem summary_document {text : String} {d : Diagram BuiltinIcon} (h : Diagram.load text = .ok d) :
    ∃ json, Script.summary text = .ok json ∧
      ((∃ v, Json.Document v json.toList) ↔ ∀ part ∈ Summary.texts d, ∀ c ∈ part.toList, Summary.Quotable c) ∧
      (∀ v, Json.Document v json.toList → v = Summary.value d) ∧
      d.actors.map Actor.rank = List.range d.actors.length := by
  refine ⟨String.ofList (Summary.diagram d), map_eq_ok.mpr ⟨d, h, rfl⟩, ?_, ?_,
    (Diagram.sound_of_load h).ranked.ranks⟩
  · rw [String.toList_ofList]
    exact ⟨fun ⟨_, hv⟩ => Summary.quotable_of_document hv, fun hquote => ⟨_, Summary.document_diagram hquote⟩⟩
  · rw [String.toList_ofList]
    intro v hv
    exact hv.unique (Summary.document_diagram (Summary.quotable_of_document hv))

def controlSample : String := "title: a\u0001b"

theorem summary_document_controlSample :
    ∃ (d : Diagram BuiltinIcon) (json : String), Diagram.load controlSample = .ok d ∧ d.title = some "a\u0001b" ∧
      Script.summary controlSample = .ok json ∧ ¬ ∃ v, Json.Document v json.toList := by
  have htitle : (Diagram.load controlSample).toOption.map (·.title) = some (some "a\u0001b") := by
    decide +kernel
  obtain ⟨d, hload, htitle⟩ := toOption_map_eq_some.mp htitle
  obtain ⟨json, hjson, hdocument, _⟩ := summary_document hload
  refine ⟨d, json, hload, htitle, hjson, fun hv => ?_⟩
  have htext : "a\u0001b" ∈ Summary.texts d := List.mem_append_left _ (Option.mem_toList.mpr htitle)
  exact absurd (hdocument.mp hv _ htext '\u0001' (by decide)) (by decide)

end Script

end SequenceChart
