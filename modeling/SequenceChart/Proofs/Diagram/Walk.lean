import SequenceChart.Proofs.Diagram.Statements
import SequenceChart.Proofs.Script.Outline

/-! Building a diagram as one walk over the leaves and headers of a forest, in the order of the script. The
tree of items is flattened the same way, so what holds of the walk holds of diagrams. -/

namespace SequenceChart

/-- What takes a row of its own: an action, a note, a divider or the header of a segment. -/
inductive Entry where
  | action (a : Action)
  | note (n : Note)
  | divider (d : Divider)
  | header (h : Heading)
deriving DecidableEq

namespace Item

mutual

def entries : Item → List Entry
  | .action a => [.action a]
  | .note n => [.note n]
  | .divider d => [.divider d]
  | .block segments => entriesSegments segments

def entriesSegments : List (Segment Item) → List Entry
  | [] => []
  | ⟨heading, body⟩ :: later => .header heading :: (entriesAll body ++ entriesSegments later)

def entriesAll : List Item → List Entry
  | [] => []
  | item :: later => item.entries ++ entriesAll later

end

/-- Induction on runs of items: a block adds what holds of the bodies of its segments. -/
@[elab_as_elim]
theorem forest_induction {P : List Item → Prop} (nil : P [])
    (action : ∀ a later, P later → P (.action a :: later))
    (note : ∀ n later, P later → P (.note n :: later))
    (divider : ∀ d later, P later → P (.divider d :: later))
    (block : ∀ segments later, (∀ s ∈ segments, P s.body) → P later → P (.block segments :: later)) :
    ∀ items, P items
  | [] => nil
  | .action a :: later => action a later (forest_induction nil action note divider block later)
  | .note n :: later => note n later (forest_induction nil action note divider block later)
  | .divider d :: later => divider d later (forest_induction nil action note divider block later)
  | .block segments :: later =>
    block segments later (fun s _ => forest_induction nil action note divider block s.body)
      (forest_induction nil action note divider block later)
termination_by items => sizeOf items
decreasing_by
  all_goals simp only [List.cons.sizeOf_spec, Item.block.sizeOf_spec]
  · omega
  · omega
  · omega
  · have hbody := Segment.sizeOf_body_lt ‹s ∈ segments›
    omega
  · omega

theorem entriesSegments_cons (s : Segment Item) (later : List (Segment Item)) :
    entriesSegments (s :: later) = .header s.heading :: (entriesAll s.body ++ entriesSegments later) := by
  rw [entriesSegments]

theorem entriesAll_cons (item : Item) (later : List Item) :
    entriesAll (item :: later) = item.entries ++ entriesAll later := by
  rw [entriesAll]

theorem entriesAll_append (items later : List Item) :
    entriesAll (items ++ later) = entriesAll items ++ entriesAll later := by
  induction items with
  | nil => rfl
  | cons item items ih => rw [List.cons_append, entriesAll, entriesAll, ih, List.append_assoc]

end Item

/-- What a walk through a forest meets. -/
inductive Step where
  | leaf (line : Nat) (content : Leaf)
  | header (heading : Heading)

namespace Node

mutual

def steps : Node → List Step
  | .leaf line content => [.leaf line content]
  | .block _ segments => stepsSegments segments

def stepsSegments : List (Segment Node) → List Step
  | [] => []
  | ⟨heading, body⟩ :: later => .header heading :: (stepsAll body ++ stepsSegments later)

def stepsAll : List Node → List Step
  | [] => []
  | node :: later => node.steps ++ stepsAll later

end

theorem stepsAll_append (nodes later : List Node) : stepsAll (nodes ++ later) = stepsAll nodes ++ stepsAll later := by
  induction nodes with
  | nil => rfl
  | cons node nodes ih => rw [List.cons_append, stepsAll, stepsAll, ih, List.append_assoc]

end Node

namespace Builder

variable {ι : Type}

def step (b : Builder ι) (d : Draft ι) : Step → Except BuildError (Draft ι × List Entry)
  | .leaf line content =>
    (b.leaf d line content).map fun found => (found.1, Item.entriesAll found.2.toList)
  | .header heading => .ok (d, [.header heading])

def walk (b : Builder ι) (d : Draft ι) : List Step → Except BuildError (Draft ι × List Entry)
  | [] => .ok (d, [])
  | step :: later => do
    let (d, here) ← b.step d step
    let (d, found) ← b.walk d later
    .ok (d, here ++ found)

theorem walk_append (b : Builder ι) (d : Draft ι) (steps later : List Step) :
    b.walk d (steps ++ later) = (do
      let (d, here) ← b.walk d steps
      let (d, found) ← b.walk d later
      .ok (d, here ++ found)) := by
  induction steps generalizing d with
  | nil =>
    change b.walk d later = (do
      let (d, found) ← b.walk d later
      .ok (d, found))
    cases b.walk d later <;> rfl
  | cons step steps ih =>
    rw [List.cons_append, walk, walk]
    cases b.step d step with
    | error fault => rfl
    | ok here =>
      simp only [bind, Except.bind] at ih ⊢
      rw [ih]
      cases b.walk here.1 steps with
      | error fault => rfl
      | ok found =>
        dsimp only
        cases b.walk found.1 later with
        | error fault => rfl
        | ok rest => dsimp only; rw [List.append_assoc]

theorem walk_segments (b : Builder ι) {segments : List (Segment Node)}
    (hbodies : ∀ s ∈ segments, ∀ d,
      (b.nodes d s.body).map (fun found => (found.1, Item.entriesAll found.2)) =
        b.walk d (Node.stepsAll s.body)) (d : Draft ι) :
    (b.segments d segments).map (fun found => (found.1, Item.entriesSegments found.2)) =
      b.walk d (Node.stepsSegments segments) := by
  induction segments generalizing d with
  | nil => rfl
  | cons s later ih =>
    obtain ⟨heading, body⟩ := s
    have hbody := (List.forall_mem_cons.mp hbodies).1 d
    have hlater := ih (List.forall_mem_cons.mp hbodies).2
    rw [segments, Node.stepsSegments, walk, step]
    simp only [bind, Except.bind, walk_append, ← hbody, Except.map] at hlater ⊢
    cases b.nodes d body with
    | error fault => rfl
    | ok found =>
      dsimp only
      rw [← hlater found.1]
      cases b.segments found.1 later with
      | error fault => rfl
      | ok rest => rfl

/-- Building a forest is walking over its leaves and headers: the drafts, the faults and the entries of the
items are the same. -/
theorem walk_nodes (b : Builder ι) (d : Draft ι) (nodes : List Node) :
    (b.nodes d nodes).map (fun found => (found.1, Item.entriesAll found.2)) =
      b.walk d (Node.stepsAll nodes) := by
  induction nodes using Node.forest_induction generalizing d with
  | nil => rfl
  | leaf line content later ih =>
    rw [Builder.nodes, Builder.node, Node.stepsAll, Node.steps, List.singleton_append, walk, step]
    simp only [bind, Except.bind, Except.map] at ih ⊢
    cases b.leaf d line content with
    | error fault => rfl
    | ok here =>
      dsimp only
      rw [← ih here.1]
      cases b.nodes here.1 later with
      | error fault => rfl
      | ok rest => dsimp only; rw [Item.entriesAll_append]
  | block line segments later ihbodies ih =>
    have hsegments := walk_segments b ihbodies d
    rw [Builder.nodes, Builder.node, Node.stepsAll, Node.steps, walk_append, ← hsegments]
    simp only [bind, Except.bind, Except.map] at ih ⊢
    cases b.segments d segments with
    | error fault => rfl
    | ok here =>
      dsimp only
      rw [← ih here.1]
      cases b.nodes here.1 later with
      | error fault => rfl
      | ok rest => rfl

/-- What holds of a draft whatever its title and its settings are, and still does once an actor has been mentioned
or declared. -/
structure Invariant (b : Builder ι) (P : Draft ι → Prop) : Prop where
  actors : ∀ {d later : Draft ι}, P d → later.actors = d.actors → P later
  mention : ∀ {d : Draft ι} (name : String), P d → P (d.mention name).1
  declare : ∀ {d later : Draft ι} {line : Nat} {name : String} {given : List Attribute} {description : Option String},
    b.declare d line name given description = .ok later → P d → P later

namespace Invariant

variable {b : Builder ι} {P : Draft ι → Prop} {d later : Draft ι} {line : Nat}

theorem mentionAll (hP : b.Invariant P) (names : List String) (hd : P d) : P (d.mentionAll names) := by
  induction names generalizing d with
  | nil => exact hd
  | cons name names ih => exact ih (hP.mention name hd)

theorem leaf (hP : b.Invariant P) {content : Leaf} {item : Option Item}
    (h : b.leaf d line content = .ok (later, item)) (hd : P d) : P later := by
  obtain ⟨name, given, description, rfl, hdeclare⟩ | ⟨-, rfl⟩ := leaf_draft h
  · exact hP.declare hdeclare hd
  · exact hP.actors (hP.mentionAll content.names hd) rfl

theorem step (hP : b.Invariant P) {step : Step} {entries : List Entry} (h : b.step d step = .ok (later, entries))
    (hd : P d) : P later := by
  cases step with
  | leaf line content =>
    obtain ⟨_, hleaf, h⟩ := map_eq_ok.mp h
    obtain ⟨rfl, _⟩ := Prod.mk.inj h
    exact hP.leaf hleaf hd
  | header heading =>
    obtain ⟨rfl, _⟩ := Prod.mk.inj (Except.ok.inj h)
    exact hd

theorem walk (hP : b.Invariant P) {steps : List Step} {entries : List Entry}
    (h : b.walk d steps = .ok (later, entries)) (hd : P d) : P later := by
  induction steps generalizing d entries with
  | nil =>
    obtain ⟨rfl, _⟩ := Prod.mk.inj (Except.ok.inj h)
    exact hd
  | cons step steps ih =>
    obtain ⟨_, hstep, h⟩ := bind_eq_ok.mp h
    obtain ⟨⟨last, found⟩, hwalk, h⟩ := bind_eq_ok.mp h
    obtain ⟨rfl, _⟩ := Prod.mk.inj (Except.ok.inj h)
    exact ih hwalk (hP.step hstep hd)

end Invariant

theorem walk_of_build {b : Builder ι} {nodes : List Node} {d : Diagram ι} (h : b.build nodes = .ok d) :
    ∃ (draft : Draft ι) (items : List Item),
      b.walk .empty (Node.stepsAll nodes) = .ok (draft, Item.entriesAll items) ∧
        d = ⟨draft.title, draft.actors, items, draft.instructions⟩ := by
  unfold build at h
  obtain ⟨⟨draft, items⟩, hnodes, h⟩ := bind_eq_ok.mp h
  refine ⟨draft, items, ?_, (Except.ok.inj h).symm⟩
  rw [← walk_nodes, hnodes]
  rfl

end Builder

end SequenceChart
