import Mathlib.Data.List.Induction
import Mathlib.Data.List.Nodup
import SequenceChart.Diagram.Load
import SequenceChart.Proofs.Diagram.Ranks

/-! References to actors. The actors of a diagram are the names that a walk through the nodes meets, each at
its first meeting, and a diagram has the items that the nodes have when every reference is looked up among
the actors of the finished diagram. -/

namespace SequenceChart

variable {ι : Type}

namespace ActorRef

def participant (names : List String) : ActorRef → Participant
  | .named name => .actor (names.idxOf name)
  | .pseudo name => if Text.foldCase name = "left" then .leftOffside else .rightOffside

end ActorRef

namespace Leaf

/-- The item that a statement is, given what its references stand for. A note over the same participant
twice is a note over that one. -/
def item? (find : ActorRef → Participant) : Leaf → Option Item
  | .action sender receiver arrow message => some (.action ⟨find sender, find receiver, arrow, message⟩)
  | .note [ref] alignment message => some (.note ⟨find ref, none, alignment, message⟩)
  | .note [ref, other] alignment message =>
    some (.note ⟨find ref, if find other = find ref then none else some (find other), alignment, message⟩)
  | .gap kind message => some (.divider ⟨kind, message⟩)
  | _ => none

end Leaf

def Step.names : Step → List String
  | .leaf _ content => content.names
  | .header _ => []

namespace Node

/-- The names that a walk through a forest meets, as often as it meets them. -/
def mentions (nodes : List Node) : List String := (stepsAll nodes).flatMap Step.names

mutual

def item? (find : ActorRef → Participant) : Node → Option Item
  | .leaf _ content => content.item? find
  | .block _ segments => some (.block (itemsSegments find segments))

def itemsSegments (find : ActorRef → Participant) : List (Segment Node) → List (Segment Item)
  | [] => []
  | ⟨heading, body⟩ :: later => ⟨heading, itemsAll find body⟩ :: itemsSegments find later

def itemsAll (find : ActorRef → Participant) : List Node → List Item
  | [] => []
  | node :: later => (node.item? find).toList ++ itemsAll find later

end

end Node

theorem eraseDups_concat (names : List String) (name : String) :
    (names ++ [name]).eraseDups =
      if name ∈ names then names.eraseDups else names.eraseDups ++ [name] := by
  rw [List.eraseDups_append]
  by_cases h : name ∈ names <;> simp [List.removeAll, h, List.eraseDups_cons]

theorem nodup_eraseDups (names : List String) : names.eraseDups.Nodup := by
  induction names using List.reverseRecOn with
  | nil => exact List.nodup_nil
  | append_singleton names name ih =>
    rw [eraseDups_concat]
    split
    · exact ih
    · rename_i hfresh
      refine List.nodup_append.mpr ⟨ih, List.nodup_singleton name, ?_⟩
      rintro other hother _ hname rfl
      rw [List.mem_singleton] at hname
      exact hfresh (hname ▸ List.mem_eraseDups.mp hother)

namespace Draft

def names (d : Draft ι) : List String := d.actors.map Actor.name

def diagram (d : Draft ι) (nodes : List Node) : Diagram ι :=
  ⟨d.title, d.actors, Node.itemsAll (·.participant d.names) nodes, d.instructions⟩

theorem rank?_eq_none_iff {d : Draft ι} {name : String} : d.rank? name = none ↔ name ∉ d.names := by
  rw [Roster.rank?_eq_findIdx?, List.findIdx?_eq_none_iff, names, List.mem_map]
  constructor
  · rintro hall ⟨a, ha, rfl⟩
    exact absurd (hall a ha) (by simp)
  · intro hfresh a ha
    exact beq_eq_false_iff_ne.mpr fun hname => hfresh ⟨a, ha, hname⟩

theorem names_mention (d : Draft ι) (name : String) :
    (d.mention name).1.names = if name ∈ d.names then d.names else d.names ++ [name] := by
  unfold mention
  cases hrank : d.rank? name with
  | some rank =>
    have hmem : name ∈ d.names := by
      by_contra hfresh
      rw [rank?_eq_none_iff.mpr hfresh] at hrank
      contradiction
    rw [if_pos hmem]
  | none =>
    rw [if_neg (rank?_eq_none_iff.mp hrank)]
    simp [names, Roster.enter, Actor.mentioned]

theorem rank_mention (d : Draft ι) (name : String) :
    (d.mention name).2 = (d.mention name).1.names.idxOf name := by
  unfold mention
  cases hrank : d.rank? name with
  | some rank =>
    have hindex : d.names.idxOf name = d.actors.findIdx (·.name == name) := by
      rw [names, List.idxOf, List.findIdx_map]
      rfl
    rw [Roster.rank?_eq_findIdx?] at hrank
    obtain ⟨hlt, hname, hfirst⟩ := List.findIdx?_eq_some_iff_getElem.mp hrank
    rw [hindex]
    exact ((List.findIdx_eq hlt).mpr ⟨hname, fun j hj => by simpa using hfirst j hj⟩).symm
  | none =>
    have hfresh := rank?_eq_none_iff.mp hrank
    have hnames : ({ d with toRoster := d.enter name } : Draft ι).names = d.names ++ [name] := by
      simp [names, Roster.enter, Actor.mentioned]
    rw [hnames, List.idxOf_append, if_neg hfresh]
    simp [names]

/-- Whether the draft has exactly the actors that are named so far, each from where it is named first. -/
def Knows (d : Draft ι) (seen : List String) : Prop := d.names = seen.eraseDups

theorem knows_empty : (empty : Draft ι).Knows [] := rfl

theorem Knows.mention {d : Draft ι} {seen : List String} (h : d.Knows seen) (name : String) :
    (d.mention name).1.Knows (seen ++ [name]) := by
  unfold Knows at h ⊢
  rw [names_mention, eraseDups_concat, h]
  simp only [List.mem_eraseDups]

theorem Knows.mentionAll {d : Draft ι} {seen : List String} (h : d.Knows seen) (names : List String) :
    (d.mentionAll names).Knows (seen ++ names) := by
  induction names generalizing d seen with
  | nil => rwa [List.append_nil]
  | cons name names ih =>
    rw [List.append_cons]
    exact ih (h.mention name)

end Draft

namespace Builder

theorem knows_resolve {b : Builder ι} {d later : Draft ι} {line : Nat} {ref : ActorRef} {p : Participant}
    (h : b.resolve d line ref = .ok (later, p)) {seen : List String} (hseen : d.Knows seen) :
    later.Knows (seen ++ ref.names) :=
  resolve_draft h ▸ hseen.mentionAll ref.names

theorem knows_declare {b : Builder ι} {d later : Draft ι} {line : Nat} {name : String} {given : List Attribute}
    {description : Option String} (h : b.declare d line name given description = .ok later) {seen : List String}
    (hseen : d.Knows seen) : later.Knows (seen ++ [name]) := by
  unfold declare at h
  obtain ⟨declaration, _, h⟩ := bind_eq_ok.mp h
  obtain rfl := Except.ok.inj h
  have hsame := ((d.mention name).1.grows_modify (d.mention name).2 (declaration.name_applyTo description)
    fun _ => rfl).names.eq_of_length (by simp [Draft.modify, Roster.modify])
  exact hsame.symm.trans (hseen.mention name)

theorem knows_leaf {b : Builder ι} {d later : Draft ι} {line : Nat} {content : Leaf} {item : Option Item}
    (h : b.leaf d line content = .ok (later, item)) {seen : List String} (hseen : d.Knows seen) :
    later.Knows (seen ++ content.names) := by
  obtain ⟨name, given, description, rfl, hdeclare⟩ | ⟨-, rfl⟩ := leaf_draft h
  · exact knows_declare hdeclare hseen
  · exact hseen.mentionAll content.names

theorem knows_step {b : Builder ι} {d later : Draft ι} {step : Step} {entries : List Entry}
    (h : b.step d step = .ok (later, entries)) {seen : List String} (hseen : d.Knows seen) :
    later.Knows (seen ++ step.names) := by
  cases step with
  | leaf line content =>
    obtain ⟨⟨middle, item⟩, hleaf, h⟩ := map_eq_ok.mp h
    obtain ⟨rfl, rfl⟩ := Prod.mk.inj h
    exact knows_leaf hleaf hseen
  | header heading =>
    obtain ⟨rfl, rfl⟩ := Prod.mk.inj (Except.ok.inj h)
    simpa [Step.names] using hseen

theorem knows_walk {b : Builder ι} {steps : List Step} {d later : Draft ι} {entries : List Entry}
    (h : b.walk d steps = .ok (later, entries)) {seen : List String} (hseen : d.Knows seen) :
    later.Knows (seen ++ steps.flatMap Step.names) := by
  induction steps generalizing d later entries seen with
  | nil =>
    obtain ⟨rfl, rfl⟩ := Prod.mk.inj (Except.ok.inj h)
    simpa using hseen
  | cons step steps ih =>
    obtain ⟨⟨middle, here⟩, hstep, h⟩ := bind_eq_ok.mp h
    obtain ⟨⟨last, found⟩, hwalk, h⟩ := bind_eq_ok.mp h
    obtain ⟨rfl, rfl⟩ := Prod.mk.inj (Except.ok.inj h)
    rw [List.flatMap_cons, ← List.append_assoc]
    exact ih hwalk (knows_step hstep hseen)

/-- Whatever actors come later, a reference stands for the participant that it was resolved to. -/
theorem read_resolve {b : Builder ι} {d later : Draft ι} {line : Nat} {ref : ActorRef} {p : Participant}
    (h : b.resolve d line ref = .ok (later, p)) {names : List String} (hnames : later.names <+: names) :
    p = ref.participant names := by
  unfold resolve at h
  cases ref with
  | named name =>
    dsimp only at h
    split at h
    · contradiction
    · obtain ⟨rfl, rfl⟩ := Prod.mk.inj (Except.ok.inj h)
      obtain ⟨more, rfl⟩ := hnames
      have hmem : name ∈ (d.mention name).1.names := by
        rw [Draft.names_mention]
        split <;> simp [*]
      rw [ActorRef.participant, List.idxOf_append_of_mem hmem, ← Draft.rank_mention]
  | pseudo name =>
    unfold ActorRef.participant
    dsimp only at h ⊢
    split at h
    · obtain ⟨rfl, rfl⟩ := Prod.mk.inj (Except.ok.inj h)
      rw [if_pos ‹_›]
    · split at h
      · obtain ⟨rfl, rfl⟩ := Prod.mk.inj (Except.ok.inj h)
        rw [if_neg ‹_›]
      · contradiction

theorem read_note {b : Builder ι} {d later : Draft ι} {line : Nat} {alignment : Alignment} {message : String}
    {refs : List ActorRef} {n : Note} (h : b.note d line alignment message refs = .ok (later, n))
    {names : List String} (hnames : later.names <+: names) :
    some (.note n) = (Leaf.note refs alignment message).item? (·.participant names) := by
  unfold note at h
  split at h
  · obtain ⟨⟨middle, first⟩, hfirst, h⟩ := bind_eq_ok.mp h
    obtain ⟨rfl, rfl⟩ := Prod.mk.inj (Except.ok.inj h)
    rw [Leaf.item?, ← read_resolve hfirst hnames]
  · obtain ⟨⟨middle, first⟩, hfirst, h⟩ := bind_eq_ok.mp h
    obtain ⟨⟨last, second⟩, hsecond, h⟩ := bind_eq_ok.mp h
    obtain ⟨rfl, rfl⟩ := Prod.mk.inj (Except.ok.inj h)
    have hmiddle := (grows_resolve hsecond).1.names.trans hnames
    rw [Leaf.item?, ← read_resolve hfirst hmiddle, ← read_resolve hsecond hnames]
  · contradiction

theorem read_leaf {b : Builder ι} {d later : Draft ι} {line : Nat} {content : Leaf} {item : Option Item}
    (h : b.leaf d line content = .ok (later, item)) {names : List String} (hnames : later.names <+: names) :
    item = content.item? (·.participant names) := by
  unfold leaf at h
  cases content with
  | title text =>
    obtain ⟨rfl, rfl⟩ := Prod.mk.inj (Except.ok.inj h)
    rfl
  | actor name given description =>
    obtain ⟨middle, hdeclare, h⟩ := bind_eq_ok.mp h
    obtain ⟨rfl, rfl⟩ := Prod.mk.inj (Except.ok.inj h)
    rfl
  | action sender receiver arrow text =>
    obtain ⟨⟨middle, first⟩, hfirst, h⟩ := bind_eq_ok.mp h
    obtain ⟨⟨last, second⟩, hsecond, h⟩ := bind_eq_ok.mp h
    obtain ⟨rfl, rfl⟩ := Prod.mk.inj (Except.ok.inj h)
    have hmiddle := (grows_resolve hsecond).1.names.trans hnames
    rw [Leaf.item?, ← read_resolve hfirst hmiddle, ← read_resolve hsecond hnames]
  | note actors alignment text =>
    obtain ⟨⟨middle, n⟩, hnote, h⟩ := bind_eq_ok.mp h
    obtain ⟨rfl, rfl⟩ := Prod.mk.inj (Except.ok.inj h)
    exact read_note hnote hnames
  | gap kind text =>
    obtain ⟨rfl, rfl⟩ := Prod.mk.inj (Except.ok.inj h)
    rfl
  | instruction setting =>
    obtain ⟨rfl, rfl⟩ := Prod.mk.inj (Except.ok.inj h)
    rfl

theorem names_nodes {b : Builder ι} {nodes : List Node} {d later : Draft ι} {items : List Item}
    (h : b.nodes d nodes = .ok (later, items)) : d.names <+: later.names := by
  have hwalk := walk_nodes b d nodes
  rw [h] at hwalk
  exact (walked_walk hwalk.symm).grows.names

theorem names_segments {b : Builder ι} {segments : List (Segment Node)} {d later : Draft ι}
    {built : List (Segment Item)} (h : b.segments d segments = .ok (later, built)) :
    d.names <+: later.names := by
  have hwalk : _ = b.walk d (Node.stepsSegments segments) :=
    walk_segments b (fun s _ d => walk_nodes b d s.body) d
  rw [h] at hwalk
  exact (walked_walk hwalk.symm).grows.names

theorem read_segments {b : Builder ι} {segments : List (Segment Node)}
    (hbodies : ∀ s ∈ segments, ∀ {d later items}, b.nodes d s.body = .ok (later, items) →
      ∀ {names : List String}, later.names <+: names → items = Node.itemsAll (·.participant names) s.body)
    {d later : Draft ι} {built : List (Segment Item)} (h : b.segments d segments = .ok (later, built))
    {names : List String} (hnames : later.names <+: names) :
    built = Node.itemsSegments (·.participant names) segments := by
  induction segments generalizing d later built with
  | nil =>
    obtain ⟨rfl, rfl⟩ := Prod.mk.inj (Except.ok.inj h)
    rfl
  | cons s segments ih =>
    obtain ⟨heading, body⟩ := s
    obtain ⟨hbody, hrest⟩ := List.forall_mem_cons.mp hbodies
    obtain ⟨⟨middle, items⟩, hitems, h⟩ := bind_eq_ok.mp h
    obtain ⟨⟨last, rest⟩, hsegments, h⟩ := bind_eq_ok.mp h
    obtain ⟨rfl, rfl⟩ := Prod.mk.inj (Except.ok.inj h)
    have hmiddle := (names_segments hsegments).trans hnames
    rw [Node.itemsSegments, ← hbody hitems hmiddle, ← ih hrest hsegments hnames]

theorem read_nodes {b : Builder ι} {nodes : List Node} {d later : Draft ι} {items : List Item}
    (h : b.nodes d nodes = .ok (later, items)) {names : List String} (hnames : later.names <+: names) :
    items = Node.itemsAll (·.participant names) nodes := by
  induction nodes using Node.forest_induction generalizing d later items names with
  | nil =>
    obtain ⟨rfl, rfl⟩ := Prod.mk.inj (Except.ok.inj h)
    rfl
  | leaf line content nodes ih =>
    obtain ⟨⟨middle, item⟩, hleaf, h⟩ := bind_eq_ok.mp h
    obtain ⟨⟨last, rest⟩, hnodes, h⟩ := bind_eq_ok.mp h
    obtain ⟨rfl, rfl⟩ := Prod.mk.inj (Except.ok.inj h)
    have hmiddle := (names_nodes hnodes).trans hnames
    rw [Node.itemsAll, Node.item?, ← read_leaf hleaf hmiddle, ← ih hnodes hnames]
  | block line segments nodes ihbodies ih =>
    obtain ⟨⟨middle, item⟩, hblock, h⟩ := bind_eq_ok.mp h
    obtain ⟨⟨last, rest⟩, hnodes, h⟩ := bind_eq_ok.mp h
    obtain ⟨rfl, rfl⟩ := Prod.mk.inj (Except.ok.inj h)
    obtain ⟨⟨inside, built⟩, hsegments, hblock⟩ := bind_eq_ok.mp hblock
    obtain ⟨rfl, rfl⟩ := Prod.mk.inj (Except.ok.inj hblock)
    have hmiddle := (names_nodes hnodes).trans hnames
    rw [Node.itemsAll, Node.item?, ← read_segments ihbodies hsegments hmiddle,
      ← ih hnodes hnames]

/-- Building is walking to the end and then reading the items off the nodes. -/
theorem build_eq_walk (b : Builder ι) (nodes : List Node) :
    b.build nodes = (b.walk .empty (Node.stepsAll nodes)).map fun found => found.1.diagram nodes := by
  rw [← walk_nodes]
  unfold build
  cases hnodes : b.nodes .empty nodes with
  | error fault => rfl
  | ok found =>
    have hitems := read_nodes hnodes (List.prefix_refl _)
    simp only [bind, Except.bind, Except.map, Draft.diagram, ← hitems]

end Builder

namespace Diagram

def participant (d : Diagram ι) (ref : ActorRef) : Participant := ref.participant (d.actors.map Actor.name)

theorem names_of_build {b : Builder ι} {nodes : List Node} {d : Diagram ι} (h : b.build nodes = .ok d) :
    d.actors.map Actor.name = (Node.mentions nodes).eraseDups := by
  obtain ⟨draft, items, hwalk, rfl⟩ := Builder.walk_of_build h
  exact Builder.knows_walk hwalk Draft.knows_empty

theorem items_of_build {b : Builder ι} {nodes : List Node} {d : Diagram ι} (h : b.build nodes = .ok d) :
    d.items = Node.itemsAll d.participant nodes := by
  rw [Builder.build_eq_walk] at h
  obtain ⟨_, _, rfl⟩ := map_eq_ok.mp h
  rfl

theorem rank_of_actor? {d : Diagram ι} (h : d.Ranked) {rank : Nat} {a : Actor ι} (ha : d.actor? rank = some a) :
    a.rank = rank := by
  have hrank : (d.actors.map Actor.rank)[rank]? = some a.rank := by
    rw [List.getElem?_map]
    exact congrArg (Option.map Actor.rank) ha
  rw [h.ranks] at hrank
  obtain ⟨hlt, hsame⟩ := List.getElem?_eq_some_iff.mp hrank
  rw [← hsame, List.getElem_range]

theorem actor?_rank {d : Diagram ι} (h : d.Ranked) {a : Actor ι} (ha : a ∈ d.actors) :
    d.actor? a.rank = some a := by
  obtain ⟨rank, hrank⟩ := List.mem_iff_getElem?.mp ha
  rw [rank_of_actor? h hrank]
  exact hrank

theorem actorNamed?_eq_some_iff {d : Diagram ι} (h : (d.actors.map Actor.name).Nodup) {name : String}
    {a : Actor ι} : d.actorNamed? name = some a ↔ a ∈ d.actors ∧ a.name = name := by
  constructor
  · intro hfound
    exact ⟨List.mem_of_find?_eq_some hfound, by simpa using List.find?_some hfound⟩
  · rintro ⟨ha, rfl⟩
    obtain ⟨found, hfound⟩ := Option.isSome_iff_exists.mp
      (List.find?_isSome.mpr ⟨a, ha, beq_self_eq_true a.name⟩ :
        (d.actors.find? (·.name == a.name)).isSome)
    have hname : found.name = a.name := by simpa using List.find?_some hfound
    have hsame : found = a := List.inj_on_of_nodup_map h (List.mem_of_find?_eq_some hfound) ha hname
    exact hsame ▸ hfound

theorem participant_named {d : Diagram ι} (h : d.Ranked) {name : String}
    (hname : name ∈ d.actors.map Actor.name) :
    ∃ a ∈ d.actors, a.name = name ∧ d.participant (.named name) = .actor a.rank := by
  have hget := List.getElem?_idxOf hname
  rw [List.getElem?_map] at hget
  obtain ⟨a, ha, rfl⟩ := Option.map_eq_some_iff.mp hget
  refine ⟨a, List.mem_of_getElem? ha, rfl, ?_⟩
  rw [rank_of_actor? h ha]
  rfl

/-- The actors of a diagram that was built are the names that a walk through the nodes meets, each at its
first meeting, with their places as ranks; a name finds the actor that has it. The items are those of the
nodes, every reference read as the actor of the finished diagram that it names, and no rank in them is
without an actor. -/
theorem actors_of_build {b : Builder ι} {nodes : List Node} {d : Diagram ι} (h : b.build nodes = .ok d) :
    ((d.actors.map Actor.name).Nodup ∧ d.actors.map Actor.name = (Node.mentions nodes).eraseDups) ∧
    (∀ rank a, d.actor? rank = some a → a.rank = rank) ∧
    (∀ name a, d.actorNamed? name = some a ↔ a ∈ d.actors ∧ a.name = name) ∧
    d.items = Node.itemsAll d.participant nodes ∧
    (∀ name ∈ Node.mentions nodes, ∃ a, d.actor? a.rank = some a ∧ d.actorNamed? name = some a ∧
      d.participant (.named name) = .actor a.rank) ∧
    ∀ e ∈ Item.entriesAll d.items, ∀ rank, .actor rank ∈ e.participants → rank < d.actors.length := by
  have hranked := ranked_of_build h
  have hnames := names_of_build h
  have hnodup : (d.actors.map Actor.name).Nodup := hnames ▸ nodup_eraseDups _
  refine ⟨⟨hnodup, hnames⟩, fun _ _ => rank_of_actor? hranked,
    fun _ _ => actorNamed?_eq_some_iff hnodup, items_of_build h, ?_, ?_⟩
  · intro name hname
    obtain ⟨a, ha, rfl, hparticipant⟩ :=
      participant_named hranked (hnames ▸ List.mem_eraseDups.mpr hname)
    exact ⟨a, actor?_rank hranked ha, (actorNamed?_eq_some_iff hnodup).mpr ⟨ha, rfl⟩, hparticipant⟩
  · intro e he rank hrank
    exact hranked.within e he _ hrank

def mentionSample : List Node :=
  [.leaf 1 (.note [.pseudo "Left", .named "c"] .over ""),
    .block 2 [⟨.alt "", [.leaf 3 (.actor "a" [] none), .block 4 [⟨.loop "", [
      .leaf 5 (.action (.named "b") (.named "a") .response "")]⟩]]⟩],
    .leaf 8 (.note [.named "a", .named "a"] .over ""), .leaf 9 (.action (.named "c") (.named "d") .sync "")]

theorem actors_of_build_mentionSample :
    ∃ d : Diagram BuiltinIcon, ofNodes mentionSample = .ok d ∧
      d.actors.map Actor.name = ["c", "a", "b", "d"] ∧
      (∀ name a, d.actorNamed? name = some a ↔ a ∈ d.actors ∧ a.name = name) ∧
      d.items = Node.itemsAll d.participant mentionSample := by
  have hok : (ofNodes mentionSample).isOk := by decide +kernel
  obtain ⟨d, hbuild⟩ := isOk_iff.mp hok
  obtain ⟨⟨_, hnames⟩, _, hnamed, hitems, _⟩ := actors_of_build hbuild
  have hfirst : (Node.mentions mentionSample).eraseDups = ["c", "a", "b", "d"] := by decide +kernel
  exact ⟨d, hbuild, hnames.trans hfirst, hnamed, hitems⟩

end Diagram

end SequenceChart
