import SequenceChart.Proofs.Diagram.Lookup

/-! Declarations of an actor taken together. An actor may be declared as often as one likes, before and after it is
mentioned; each field is what the last declaration that says something about it has said. -/

namespace SequenceChart

variable {ι : Type}

namespace Attribute

variable {β : Type} {word : String} {means : Attribute → β → Prop}

def last? (word : String) (given : List Attribute) : Option Attribute :=
  (given.filter fun a => Text.foldCase a.name = word).getLast?

theorem last?_append (word : String) (given later : List Attribute) :
    last? word (given ++ later) = (last? word later).or (last? word given) := by
  rw [last?, List.filter_append, List.getLast?_append]
  rfl

/-- What the value of a `header` or `footer` attribute says about the box, in any letter case. -/
inductive ShowsBox (given : Attribute) : Bool → Prop
  | box : Text.foldCase given.value = "box" → ShowsBox given true
  | none : Text.foldCase given.value = "none" → ShowsBox given false

def IsIcon (icons : IconSet ι) (given : Attribute) (ref : IconRef ι) : Prop :=
  ref.name = given.value ∧ icons given.value = .ok ref.icon

/-- Whether something is set to what the last attribute of a name says, and not set if there is none. -/
def Settles (word : String) (means : Attribute → β → Prop) (given : List Attribute) : Option β → Prop
  | none => last? word given = none
  | some value => ∃ a, last? word given = some a ∧ means a value

theorem Settles.append {given later : List Attribute} {value newer : Option β} (h : Settles word means given value)
    (hlater : Settles word means later newer) : Settles word means (given ++ later) (newer.or value) := by
  cases newer with
  | some found =>
    obtain ⟨a, ha, hmeans⟩ := hlater
    exact ⟨a, by rw [last?_append, ha, Option.some_or], hmeans⟩
  | none =>
    have hnone : last? word later = none := hlater
    have hlast : last? word (given ++ later) = last? word given := by rw [last?_append, hnone, Option.none_or]
    cases value with
    | none => exact hlast.trans h
    | some found =>
      obtain ⟨a, ha, hmeans⟩ := h
      exact ⟨a, hlast.trans ha, hmeans⟩

theorem Settles.eq_none {given : List Attribute} {value : Option β} (h : Settles word means given value)
    (hnone : last? word given = none) : value = none := by
  cases value with
  | none => rfl
  | some found =>
    obtain ⟨a, ha, _⟩ := h
    rw [hnone] at ha
    contradiction

theorem Settles.of_last? {given : List Attribute} {value : Option β} (h : Settles word means given value)
    {a : Attribute} (ha : last? word given = some a) : ∃ found, value = some found ∧ means a found := by
  cases value with
  | none => exact absurd (ha.symm.trans h) (Option.some_ne_none a)
  | some found =>
    obtain ⟨last, hlast, hmeans⟩ := h
    obtain rfl := Option.some.inj (ha.symm.trans hlast)
    exact ⟨found, rfl, hmeans⟩

theorem Settles.of_named {a : Attribute} (h : Text.foldCase a.name = word) {value : β} (hmeans : means a value) :
    Settles word means [a] (some value) := by
  refine ⟨a, ?_, hmeans⟩
  rw [last?, List.filter_cons_of_pos (by simpa using h)]
  rfl

theorem Settles.of_other {a : Attribute} {other : String} (h : Text.foldCase a.name = other) (hother : other ≠ word) :
    Settles word means [a] none := by
  change last? word [a] = none
  rw [last?, List.filter_cons_of_neg (by simpa [h] using hother)]
  rfl

end Attribute

open Attribute (Settles IsIcon ShowsBox last?)

structure Declared where
  attributes : List Attribute
  description : Option String
deriving DecidableEq

/-- Whether an actor is what its declarations make of it: each field is as it was said last, the label is the name of
the actor if there is no description, and boxes that nothing is said about are drawn. -/
structure Actor.Merges (icons : IconSet ι) (declared : List Declared) (a : Actor ι) : Prop where
  label : a.label = (declared.filterMap Declared.description).getLast?.getD a.name
  icon : Settles "icon" (IsIcon icons) (declared.flatMap Declared.attributes) a.icon
  header : ∃ shown, Settles "header" ShowsBox (declared.flatMap Declared.attributes) shown ∧
    a.inHeader = shown.getD true
  footer : ∃ shown, Settles "footer" ShowsBox (declared.flatMap Declared.attributes) shown ∧
    a.inFooter = shown.getD true

/-- Whether an actor is left as it was in all fields that some declarations say nothing about. -/
structure Actor.Keeps (declared : List Declared) (a later : Actor ι) : Prop where
  label : (∀ g ∈ declared, g.description = none) → later.label = a.label
  icon : last? "icon" (declared.flatMap Declared.attributes) = none → later.icon = a.icon
  header : last? "header" (declared.flatMap Declared.attributes) = none → later.inHeader = a.inHeader
  footer : last? "footer" (declared.flatMap Declared.attributes) = none → later.inFooter = a.inFooter

theorem Actor.merges_mentioned (icons : IconSet ι) (name : String) (rank : Nat) :
    (Actor.mentioned name rank).Merges icons [] :=
  ⟨rfl, rfl, ⟨none, rfl, rfl⟩, ⟨none, rfl, rfl⟩⟩

theorem Actor.Keeps.refl (a : Actor ι) : a.Keeps [] a :=
  ⟨fun _ => rfl, fun _ => rfl, fun _ => rfl, fun _ => rfl⟩

namespace Declaration

structure Reads (icons : IconSet ι) (given : List Attribute) (d : Declaration ι) : Prop where
  icon : Settles "icon" (IsIcon icons) given d.icon
  header : Settles "header" ShowsBox given d.inHeader
  footer : Settles "footer" ShowsBox given d.inFooter

variable {icons : IconSet ι} {d : Declaration ι} {g : Declared} {a : Actor ι}

theorem reads_empty (icons : IconSet ι) : (empty : Declaration ι).Reads icons [] := ⟨rfl, rfl, rfl⟩

theorem Reads.merges (h : d.Reads icons g.attributes) {declared : List Declared} (ha : a.Merges icons declared) :
    (d.applyTo g.description a).Merges icons (declared ++ [g]) := by
  obtain ⟨header, hheader, hinHeader⟩ := ha.header
  obtain ⟨footer, hfooter, hinFooter⟩ := ha.footer
  have hgiven : (declared ++ [g]).flatMap Declared.attributes =
      declared.flatMap Declared.attributes ++ g.attributes := by
    simp
  constructor
  · have hlast : ((declared ++ [g]).filterMap Declared.description).getLast? =
        g.description.or (declared.filterMap Declared.description).getLast? := by
      rw [List.filterMap_append, List.getLast?_append]
      cases hdescription : g.description <;> simp [hdescription]
    rw [hlast, Option.getD_or]
    exact congrArg g.description.getD ha.label
  · rw [hgiven]
    exact ha.icon.append h.icon
  · refine ⟨d.inHeader.or header, ?_, ?_⟩
    · rw [hgiven]
      exact hheader.append h.header
    · rw [Option.getD_or]
      exact congrArg d.inHeader.getD hinHeader
  · refine ⟨d.inFooter.or footer, ?_, ?_⟩
    · rw [hgiven]
      exact hfooter.append h.footer
    · rw [Option.getD_or]
      exact congrArg d.inFooter.getD hinFooter

theorem Reads.keeps (h : d.Reads icons g.attributes) : a.Keeps [g] (d.applyTo g.description a) := by
  have hgiven : [g].flatMap Declared.attributes = g.attributes := List.flatMap_singleton _ _
  constructor
  · intro hdescription
    have hnone := hdescription g (List.mem_singleton_self g)
    simp only [applyTo, hnone, Option.getD_none]
  · rw [hgiven]
    intro hnone
    simp only [applyTo, h.icon.eq_none hnone, Option.none_or]
  · rw [hgiven]
    intro hnone
    simp only [applyTo, h.header.eq_none hnone, Option.getD_none]
  · rw [hgiven]
    intro hnone
    simp only [applyTo, h.footer.eq_none hnone, Option.getD_none]

end Declaration

namespace Leaf

def declares? (name : String) : Leaf → Option Declared
  | .actor ident given description => if ident = name then some ⟨given, description⟩ else none
  | _ => none

theorem declares?_eq_none {content : Leaf} (h : ∀ name given description, content ≠ .actor name given description)
    (name : String) : content.declares? name = none := by
  cases content with
  | actor ident given description => exact absurd rfl (h ident given description)
  | _ => rfl

end Leaf

namespace Step

def declares? (name : String) : Step → Option Declared
  | .leaf _ content => content.declares? name
  | .header _ => none

def title? : Step → Option String
  | .leaf _ content => content.title?
  | .header _ => none

end Step

namespace Node

/-- All declarations of an actor in a forest, at whatever depth, in the order of the script. -/
def declarations (name : String) (nodes : List Node) : List Declared :=
  (stepsAll nodes).filterMap (Step.declares? name)

def titles (nodes : List Node) : List String := (stepsAll nodes).filterMap Step.title?

end Node

namespace Draft

variable {d later : Draft ι}

/-- Whether the actors of a draft are as the declarations that are under their names make them, and there are no
declarations under other names. -/
structure Merged (icons : IconSet ι) (declared : String → List Declared) (d : Draft ι) : Prop where
  merges : ∀ {name a}, d.actorNamed? name = some a → a.Merges icons (declared name)
  fresh : ∀ {name}, d.actorNamed? name = none → declared name = []

variable {icons : IconSet ι} {declared : String → List Declared}

theorem merged_empty (icons : IconSet ι) : (empty : Draft ι).Merged icons fun _ => [] :=
  ⟨nofun, fun _ => rfl⟩

theorem Merged.mention (h : d.Merged icons declared) (name : String) : (d.mention name).1.Merged icons declared := by
  constructor
  · intro other a ha
    rw [actorNamed?_mention] at ha
    cases hother : d.actorNamed? other with
    | some found =>
      rw [hother, Option.some_or] at ha
      exact h.merges (hother.trans ha)
    | none =>
      rw [hother, Option.none_or] at ha
      split at ha
      · obtain rfl := Option.some.inj ha
        rw [h.fresh hother]
        exact Actor.merges_mentioned icons name _
      · contradiction
  · intro other hnone
    rw [actorNamed?_mention, Option.or_eq_none_iff] at hnone
    exact h.fresh hnone.1

theorem Merged.mentionAll (h : d.Merged icons declared) (names : List String) :
    (d.mentionAll names).Merged icons declared := by
  induction names generalizing d with
  | nil => exact h
  | cons first names ih => exact ih (h.mention first)

theorem Merged.of_actors_eq (h : d.Merged icons declared) (hactors : later.actors = d.actors) :
    later.Merged icons declared := by
  have hnamed : later.actorNamed? = d.actorNamed? := by
    funext name
    rw [actorNamed?, actorNamed?, hactors]
  exact ⟨fun ha => h.merges (hnamed ▸ ha), fun hnone => h.fresh (hnamed ▸ hnone)⟩

end Draft

namespace Builder

variable {b : Builder ι} {d later : Draft ι} {line : Nat}

theorem isIcon_icon {actor : String} {given : Attribute} {ref : IconRef ι}
    (h : b.icon line actor given.value = .ok ref) : IsIcon b.icons given ref := by
  unfold icon at h
  split at h
  · obtain rfl := Except.ok.inj h
    exact ⟨rfl, ‹_›⟩
  · contradiction
  · contradiction

theorem showsBox_boxShown {actor : String} {given : Attribute} {shown : Bool}
    (h : boxShown line actor given = .ok shown) : ShowsBox given shown := by
  unfold boxShown at h
  dsimp only at h
  split at h
  · obtain rfl := Except.ok.inj h
    exact .none ‹_›
  · split at h
    · obtain rfl := Except.ok.inj h
      exact .box ‹_›
    · contradiction

theorem reads_readAttribute {actor : String} {given : Attribute} {before : List Attribute}
    {declaration read : Declaration ι} (h : b.readAttribute line actor declaration given = .ok read)
    (hreads : declaration.Reads b.icons before) : read.Reads b.icons (before ++ [given]) := by
  obtain ⟨hicon, hheader, hfooter⟩ := hreads
  unfold readAttribute at h
  dsimp only at h
  split at h
  · rename_i hword
    obtain ⟨ref, href, rfl⟩ := map_eq_ok.mp h
    exact ⟨hicon.append (.of_named hword (isIcon_icon href)), hheader.append (.of_other hword (by decide)),
      hfooter.append (.of_other hword (by decide))⟩
  · split at h
    · rename_i hword
      obtain ⟨shown, hshown, rfl⟩ := map_eq_ok.mp h
      exact ⟨hicon.append (.of_other hword (by decide)), hheader.append (.of_named hword (showsBox_boxShown hshown)),
        hfooter.append (.of_other hword (by decide))⟩
    · split at h
      · rename_i hword
        obtain ⟨shown, hshown, rfl⟩ := map_eq_ok.mp h
        exact ⟨hicon.append (.of_other hword (by decide)), hheader.append (.of_other hword (by decide)),
          hfooter.append (.of_named hword (showsBox_boxShown hshown))⟩
      · contradiction

theorem reads_readAttributes {actor : String} {given before : List Attribute} {declaration read : Declaration ι}
    (h : b.readAttributes line actor declaration given = .ok read) (hreads : declaration.Reads b.icons before) :
    read.Reads b.icons (before ++ given) := by
  induction given generalizing declaration before with
  | nil =>
    obtain rfl := Except.ok.inj h
    rwa [List.append_nil]
  | cons first given ih =>
    obtain ⟨middle, hfirst, h⟩ := bind_eq_ok.mp h
    have hlater := ih h (reads_readAttribute hfirst hreads)
    rwa [List.append_assoc] at hlater

theorem actorNamed?_declare {name : String} {given : List Attribute} {description : Option String}
    (h : b.declare d line name given description = .ok later) :
    ∃ declaration : Declaration ι, declaration.Reads b.icons given ∧
      ∀ other, later.actorNamed? other =
        if other = name then ((d.mention name).1.actorNamed? other).map (declaration.applyTo description)
        else (d.mention name).1.actorNamed? other := by
  obtain ⟨declaration, hread, h⟩ := bind_eq_ok.mp h
  obtain rfl := Except.ok.inj h
  refine ⟨declaration, ?_, ?_⟩
  · exact reads_readAttributes hread (Declaration.reads_empty b.icons)
  · exact Draft.actorNamed?_modify (d.rank?_mention name) (declaration.name_applyTo description)

theorem merged_declare {declared : String → List Declared} {name : String} {given : List Attribute}
    {description : Option String} (h : b.declare d line name given description = .ok later)
    (hd : d.Merged b.icons declared) :
    later.Merged b.icons fun other =>
      declared other ++ if name = other then [⟨given, description⟩] else [] := by
  obtain ⟨declaration, hreads, hnamed⟩ := actorNamed?_declare h
  have hmentioned := hd.mention name
  constructor
  · intro other a ha
    rw [hnamed] at ha
    split at ha
    · rename_i hsame
      obtain ⟨before, hbefore, rfl⟩ := Option.map_eq_some_iff.mp ha
      rw [if_pos hsame.symm]
      exact Declaration.Reads.merges (g := ⟨given, description⟩) hreads (hmentioned.merges hbefore)
    · rename_i hother
      rw [if_neg (Ne.symm hother), List.append_nil]
      exact hmentioned.merges ha
  · intro other hnone
    rw [hnamed] at hnone
    split at hnone
    · rename_i hsame
      rw [Option.map_eq_none_iff, Draft.actorNamed?_mention, if_pos hsame, Option.or_eq_none_iff] at hnone
      exact absurd hnone.2 (Option.some_ne_none _)
    · rename_i hother
      rw [if_neg (Ne.symm hother), List.append_nil]
      exact hmentioned.fresh hnone

theorem merged_leaf {declared : String → List Declared} {content : Leaf} {item : Option Item}
    (h : b.leaf d line content = .ok (later, item)) (hd : d.Merged b.icons declared) :
    later.Merged b.icons fun name => declared name ++ (content.declares? name).toList := by
  obtain ⟨name, given, description, rfl, hdeclare⟩ | ⟨hother, rfl⟩ := leaf_draft h
  · have hmerged := merged_declare hdeclare hd
    have hsame : ∀ other, (if name = other then [(⟨given, description⟩ : Declared)] else []) =
        ((Leaf.actor name given description).declares? other).toList := by
      intro other
      rw [Leaf.declares?]
      split <;> rfl
    simpa only [hsame] using hmerged
  · simp only [Leaf.declares?_eq_none hother, Option.toList_none, List.append_nil]
    exact (hd.mentionAll content.names).of_actors_eq rfl

/-- A statement leaves an actor alone but for what it declares about that actor. -/
theorem keeps_leaf {content : Leaf} {item : Option Item} (h : b.leaf d line content = .ok (later, item))
    {name : String} {a : Actor ι} (ha : d.actorNamed? name = some a) :
    ∃ c, later.actorNamed? name = some c ∧ a.Keeps (content.declares? name).toList c := by
  obtain ⟨ident, given, description, rfl, hdeclare⟩ | ⟨hother, rfl⟩ := leaf_draft h
  · obtain ⟨declaration, hreads, hnamed⟩ := actorNamed?_declare hdeclare
    have hmentioned := Draft.actorNamed?_mention_of_some ha ident
    rw [hnamed, Leaf.declares?, hmentioned]
    by_cases hsame : name = ident
    · rw [if_pos hsame, if_pos hsame.symm]
      exact ⟨_, rfl, Declaration.Reads.keeps (g := ⟨given, description⟩) hreads⟩
    · rw [if_neg hsame, if_neg (Ne.symm hsame)]
      exact ⟨a, rfl, .refl a⟩
  · rw [Leaf.declares?_eq_none hother]
    exact ⟨a, Draft.actorNamed?_mentionAll_of_some ha content.names, .refl a⟩

theorem title_walk {steps : List Step} {entries : List Entry} (h : b.walk d steps = .ok (later, entries)) :
    later.title = (steps.filterMap Step.title?).getLast?.or d.title := by
  induction steps generalizing d entries with
  | nil =>
    obtain ⟨rfl, -⟩ := Prod.mk.inj (Except.ok.inj h)
    rfl
  | cons step steps ih =>
    obtain ⟨⟨middle, here⟩, hstep, h⟩ := bind_eq_ok.mp h
    obtain ⟨⟨last, found⟩, hwalk, h⟩ := bind_eq_ok.mp h
    obtain ⟨rfl, -⟩ := Prod.mk.inj (Except.ok.inj h)
    have hmiddle : middle.title = step.title?.or d.title := by
      cases step with
      | leaf line content =>
        obtain ⟨_, hleaf, hmade⟩ := map_eq_ok.mp hstep
        obtain ⟨rfl, -⟩ := Prod.mk.inj hmade
        exact title_leaf hleaf
      | header heading =>
        obtain ⟨rfl, -⟩ := Prod.mk.inj (Except.ok.inj hstep)
        rfl
    rw [ih hwalk, hmiddle, ← Option.or_assoc]
    congr 1
    rw [List.filterMap_cons]
    cases step.title? with
    | none => exact Option.or_none
    | some text => simp [List.getLast?_cons]

/-- A walk makes of every actor what the declarations of it that are met on the way make of it. -/
theorem merged_walk {declared : String → List Declared} {steps : List Step} {entries : List Entry}
    (h : b.walk d steps = .ok (later, entries)) (hd : d.Merged b.icons declared) :
    later.Merged b.icons fun name => declared name ++ steps.filterMap (Step.declares? name) := by
  induction steps generalizing d entries declared with
  | nil =>
    obtain ⟨rfl, -⟩ := Prod.mk.inj (Except.ok.inj h)
    simpa using hd
  | cons step steps ih =>
    obtain ⟨⟨middle, here⟩, hstep, h⟩ := bind_eq_ok.mp h
    obtain ⟨⟨last, found⟩, hwalk, h⟩ := bind_eq_ok.mp h
    obtain ⟨rfl, -⟩ := Prod.mk.inj (Except.ok.inj h)
    have hmiddle : middle.Merged b.icons fun name => declared name ++ (step.declares? name).toList := by
      cases step with
      | leaf line content =>
        obtain ⟨_, hleaf, hmade⟩ := map_eq_ok.mp hstep
        obtain ⟨rfl, -⟩ := Prod.mk.inj hmade
        exact merged_leaf hleaf hd
      | header heading =>
        obtain ⟨rfl, -⟩ := Prod.mk.inj (Except.ok.inj hstep)
        simpa [Step.declares?] using hd
    have hlater := ih hwalk hmiddle
    have hcons : ∀ name, (step :: steps).filterMap (Step.declares? name) =
        (step.declares? name).toList ++ steps.filterMap (Step.declares? name) := by
      intro name
      rw [List.filterMap_cons]
      cases step.declares? name <;> rfl
    simpa only [hcons, List.append_assoc] using hlater

end Builder

namespace Diagram

theorem merges_of_build {b : Builder ι} {nodes : List Node} {d : Diagram ι} (h : b.build nodes = .ok d) {a : Actor ι}
    (ha : a ∈ d.actors) : a.Merges b.icons (Node.declarations a.name nodes) := by
  have hnodup : (d.actors.map Actor.name).Nodup := names_of_build h ▸ nodup_eraseDups _
  obtain ⟨draft, items, hwalk, rfl⟩ := Builder.walk_of_build h
  have hmerged := Builder.merged_walk hwalk (Draft.merged_empty b.icons)
  exact hmerged.merges ((actorNamed?_eq_some_iff hnodup).mpr ⟨ha, rfl⟩)

/-- Each field of an actor is what the last declaration that gives it has said, in the order of the script and at
whatever depth: the label is the last description or else the name, the icon is that of the last `icon` attribute if
there is one, and boxes are drawn unless the last `header` or `footer` attribute says no. The title is the last one.
On the way no statement changes of an actor but what it declares about it, so references, declarations of others and
what a declaration leaves out change nothing. -/
theorem declarations_merge {b : Builder ι} {nodes : List Node} {d : Diagram ι} (h : b.build nodes = .ok d) :
    (∀ a ∈ d.actors, a.Merges b.icons (Node.declarations a.name nodes)) ∧
    d.title = (Node.titles nodes).getLast? ∧
    ∀ (draft later : Draft ι) (line : Nat) (content : Leaf) (item : Option Item),
      b.leaf draft line content = .ok (later, item) →
      ∀ name a, draft.actorNamed? name = some a →
        ∃ c, later.actorNamed? name = some c ∧ a.Keeps (content.declares? name).toList c := by
  refine ⟨fun a ha => merges_of_build h ha, ?_, ?_⟩
  · obtain ⟨draft, items, hwalk, rfl⟩ := Builder.walk_of_build h
    exact (Builder.title_walk hwalk).trans Option.or_none
  · intro draft later line content item hleaf name a ha
    exact Builder.keeps_leaf hleaf ha

def mergeSample : List Node :=
  [.leaf 1 (.title "draft"), .leaf 2 (.action (.named "a") (.named "b") .sync ""),
    .leaf 3 (.actor "a" [⟨"Icon", "HUMAN"⟩, ⟨"header", "none"⟩, ⟨"HEADER", "Box"⟩] (some "A")),
    .block 4 [⟨.loop "", [.leaf 5 (.actor "a" [⟨"footer", "None"⟩] none), .leaf 6 (.title "final"),
      .leaf 7 (.actor "b" [⟨"header", "none"⟩] (some "B"))]⟩],
    .leaf 9 (.actor "a" [⟨"icon", "Database"⟩] (some "Store")), .leaf 10 (.note [.named "a"] .over "")]

theorem declarations_merge_mergeSample :
    ∃ (d : Diagram BuiltinIcon) (a : Actor BuiltinIcon), ofNodes mergeSample = .ok d ∧ a ∈ d.actors ∧
      a.name = "a" ∧ a.label = "Store" ∧ (∃ ref, a.icon = some ref ∧ ref.name = "Database" ∧ ref.icon = .drum) ∧
      (a.inHeader = true ∧ a.inFooter = false) ∧ d.title = some "final" := by
  have hok : (ofNodes mergeSample).isOk := by decide +kernel
  obtain ⟨d, hbuild⟩ := isOk_iff.mp hok
  obtain ⟨hmerges, htitle, -⟩ := declarations_merge hbuild
  have hnames : d.actors.map Actor.name = ["a", "b"] :=
    (names_of_build hbuild).trans (by decide +kernel : (Node.mentions mergeSample).eraseDups = ["a", "b"])
  obtain ⟨a, ha, hname⟩ := List.mem_map.mp (hnames ▸ List.mem_cons_self : "a" ∈ d.actors.map Actor.name)
  have hdeclared : Node.declarations "a" mergeSample =
      [⟨[⟨"Icon", "HUMAN"⟩, ⟨"header", "none"⟩, ⟨"HEADER", "Box"⟩], some "A"⟩, ⟨[⟨"footer", "None"⟩], none⟩,
        ⟨[⟨"icon", "Database"⟩], some "Store"⟩] := by
    decide +kernel
  have hmerged := hmerges a ha
  rw [hname, hdeclared] at hmerged
  obtain ⟨ref, href, hrefName, hrefIcon⟩ := hmerged.icon.of_last? (a := ⟨"icon", "Database"⟩) (by decide +kernel)
  obtain ⟨header, hheader, hinHeader⟩ := hmerged.header
  obtain ⟨_, rfl, hbox⟩ := hheader.of_last? (a := ⟨"HEADER", "Box"⟩) (by decide +kernel)
  obtain ⟨footer, hfooter, hinFooter⟩ := hmerged.footer
  obtain ⟨_, rfl, hnone⟩ := hfooter.of_last? (a := ⟨"footer", "None"⟩) (by decide +kernel)
  have hdrum : BuiltinIcon.set "Database" = .ok .drum := by rfl
  refine ⟨d, a, hbuild, ha, hname, hmerged.label, ⟨ref, href, hrefName, ?_⟩, ⟨?_, ?_⟩, htitle.trans (by decide +kernel)⟩
  · exact Except.ok.inj (hrefIcon.symm.trans hdrum)
  · cases hbox with
    | box => exact hinHeader
    | none hword => exact absurd hword (by decide +kernel)
  · cases hnone with
    | box hword => exact absurd hword (by decide +kernel)
    | none => exact hinFooter

end Diagram

end SequenceChart
