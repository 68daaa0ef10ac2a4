import SequenceChart.Proofs.Diagram.Loaded

/-! Settings of a diagram. A walk only collects them: one that is read after all others is added at the end, and is
the only difference that it makes. -/

namespace SequenceChart

variable {ι : Type}

def Draft.tell (d : Draft ι) (more : List Instruction) : Draft ι := { d with instructions := d.instructions ++ more }

def Diagram.instruct (d : Diagram ι) (setting : Instruction) : Diagram ι :=
  { d with instructions := d.instructions ++ [setting] }

theorem Draft.tell_tell (d : Draft ι) (first second : List Instruction) :
    (d.tell first).tell second = d.tell (first ++ second) := by
  unfold tell
  rw [List.append_assoc]

theorem Draft.mention_tell (d : Draft ι) (more : List Instruction) (name : String) :
    (d.tell more).mention name = ((d.mention name).1.tell more, (d.mention name).2) := by
  unfold mention
  have hrank : (d.tell more).rank? name = d.rank? name := rfl
  rw [hrank]
  cases d.rank? name <;> rfl

def Step.isSetting : Step → Bool
  | .leaf _ content => content.isSetting
  | .header _ => false

namespace Node

theorem isSetting_stepsSegments {segments : List (Segment Node)}
    (hbodies : ∀ s ∈ segments, ∀ step ∈ stepsAll s.body, step.isSetting = false) :
    ∀ step ∈ stepsSegments segments, step.isSetting = false := by
  induction segments with
  | nil => exact nofun
  | cons s later ih =>
    obtain ⟨heading, body⟩ := s
    obtain ⟨hbody, hlater⟩ := List.forall_mem_cons.mp hbodies
    exact List.forall_mem_cons.mpr ⟨rfl, List.forall_mem_append.mpr ⟨hbody, ih hlater⟩⟩

theorem isSetting_stepsAll {nodes : List Node} (h : ShapedAll nodes) :
    ∀ step ∈ stepsAll nodes, step.isSetting = false := by
  induction nodes using forest_induction with
  | nil => exact nofun
  | leaf line content later ih => exact List.forall_mem_cons.mpr ⟨h.1, ih h.2⟩
  | block line segments later ihbodies ih =>
    obtain ⟨⟨_, hsegments⟩, hlater⟩ := h
    rw [shapedSegments_iff] at hsegments
    exact List.forall_mem_append.mpr
      ⟨isSetting_stepsSegments fun s hs => ihbodies s hs (hsegments s hs), ih hlater⟩

end Node

namespace Builder

variable (b : Builder ι) (d : Draft ι) (more : List Instruction) (line : Nat)

theorem resolve_tell (ref : ActorRef) :
    b.resolve (d.tell more) line ref = (b.resolve d line ref).map fun found => (found.1.tell more, found.2) := by
  unfold resolve
  cases ref with
  | named name =>
    have hrank : (d.tell more).rank? name = d.rank? name := rfl
    dsimp only
    rw [Draft.mention_tell, hrank]
    split <;> rfl
  | pseudo name =>
    dsimp only
    split
    · rfl
    · split <;> rfl

theorem declare_tell (name : String) (given : List Attribute) (description : Option String) :
    b.declare (d.tell more) line name given description =
      (b.declare d line name given description).map (·.tell more) := by
  unfold declare
  rw [Draft.mention_tell]
  cases b.readAttributes line name .empty given <;> rfl

theorem note_tell (alignment : Alignment) (message : String) (refs : List ActorRef) :
    b.note (d.tell more) line alignment message refs =
      (b.note d line alignment message refs).map fun found => (found.1.tell more, found.2) := by
  match refs with
  | [] => rfl
  | [ref] =>
    rw [note, note, resolve_tell]
    cases b.resolve d line ref <;> rfl
  | [ref, other] =>
    rw [note, note, resolve_tell]
    cases b.resolve d line ref with
    | error fault => rfl
    | ok first =>
      simp only [Except.map, bind, Except.bind]
      rw [resolve_tell]
      cases b.resolve first.1 line other <;> rfl
  | _ :: _ :: _ :: _ => rfl

theorem leaf_tell {content : Leaf} (h : content.isSetting = false) :
    b.leaf (d.tell more) line content = (b.leaf d line content).map fun found => (found.1.tell more, found.2) := by
  cases content with
  | title | gap => rfl
  | actor name given description =>
    rw [leaf, leaf, declare_tell]
    cases b.declare d line name given description <;> rfl
  | action sender receiver arrow message =>
    rw [leaf, leaf, resolve_tell]
    cases b.resolve d line sender with
    | error fault => rfl
    | ok first =>
      simp only [Except.map, bind, Except.bind]
      rw [resolve_tell]
      cases b.resolve first.1 line receiver <;> rfl
  | note actors alignment message =>
    rw [leaf, leaf, note_tell]
    cases b.note d line alignment message actors <;> rfl
  | instruction setting => contradiction

theorem step_tell {step : Step} (h : step.isSetting = false) :
    b.step (d.tell more) step = (b.step d step).map fun found => (found.1.tell more, found.2) := by
  cases step with
  | leaf line content =>
    rw [Builder.step, Builder.step, leaf_tell b d more line h]
    cases b.leaf d line content <;> rfl
  | header heading => rfl

/-- Settings read earlier change nothing in a walk that meets none. -/
theorem walk_tell {steps : List Step} (h : ∀ step ∈ steps, step.isSetting = false) :
    b.walk (d.tell more) steps = (b.walk d steps).map fun found => (found.1.tell more, found.2) := by
  induction steps generalizing d with
  | nil => rfl
  | cons step later ih =>
    obtain ⟨hstep, hlater⟩ := List.forall_mem_cons.mp h
    rw [walk, walk, step_tell b d more hstep]
    cases b.step d step with
    | error fault => rfl
    | ok here =>
      simp only [Except.map, bind, Except.bind]
      rw [ih here.1 hlater]
      cases b.walk here.1 later <;> rfl

theorem walk_settings {settings : List Node} (h : ∀ node ∈ settings, node.isSetting = true) :
    ∃ more, b.walk d (Node.stepsAll settings) = .ok (d.tell more, []) := by
  induction settings generalizing d with
  | nil => exact ⟨[], by simp [Draft.tell, Node.stepsAll, walk]⟩
  | cons node settings ih =>
    obtain ⟨hnode, hsettings⟩ := List.forall_mem_cons.mp h
    obtain ⟨line, setting, rfl⟩ := Node.exists_of_isSetting hnode
    obtain ⟨more, hmore⟩ := ih (d.tell [setting]) hsettings
    refine ⟨setting :: more, ?_⟩
    have hstep : b.step d (.leaf line (.instruction setting)) = .ok (d.tell [setting], []) := rfl
    rw [Node.stepsAll, Node.steps, List.singleton_append, walk, hstep]
    simp only [bind, Except.bind, hmore, Draft.tell_tell, List.nil_append, List.singleton_append]

/-- A setting behind all others is added to the diagram, and is all that is added. -/
theorem build_setting {settings shaped : List Node} (hsettings : ∀ node ∈ settings, node.isSetting = true)
    (hshaped : Node.ShapedAll shaped) (setting : Instruction) :
    b.build (settings ++ .leaf line (.instruction setting) :: shaped) =
      (b.build (settings ++ shaped)).map (·.instruct setting) := by
  obtain ⟨more, hmore⟩ := b.walk_settings .empty hsettings
  have hstep : ∀ d : Draft ι, b.step d (.leaf line (.instruction setting)) = .ok (d.tell [setting], []) := fun _ => rfl
  have hitems : ∀ names : List String,
      Node.itemsAll (·.participant names) (settings ++ .leaf line (.instruction setting) :: shaped) =
        Node.itemsAll (·.participant names) (settings ++ shaped) := by
    intro names
    rw [Node.itemsAll_settings _ hsettings, Node.itemsAll_settings _ hsettings]
    rfl
  rw [build_eq_walk, build_eq_walk, Node.stepsAll_append, Node.stepsAll_append, walk_append, walk_append, hmore,
    Node.stepsAll, Node.steps, List.singleton_append]
  simp only [bind, Except.bind, walk, hstep, walk_tell b _ [setting] (Node.isSetting_stepsAll hshaped)]
  cases b.walk (Draft.empty.tell more) (Node.stepsAll shaped) with
  | error fault => rfl
  | ok found =>
    simp only [Except.map, Draft.diagram, hitems]
    rfl

end Builder

end SequenceChart
