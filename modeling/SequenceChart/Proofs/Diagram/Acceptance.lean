import SequenceChart.Proofs.Diagram.Faults

/-! What a builder accepts. Neither the lines of the nodes nor the rule that actors be declared has a say in the
diagram: that rule only refuses scripts, at the first reference to an actor that nothing before it declares. -/

namespace SequenceChart

variable {ι : Type}

def Step.unnumbered : Step → Step
  | .leaf _ content => .leaf 0 content
  | .header heading => .header heading

namespace Node

theorem stepsSegments_unnumbered {segments : List (Segment Node)}
    (hbodies : ∀ s ∈ segments, stepsAll (s.body.map unnumbered) = (stepsAll s.body).map Step.unnumbered) :
    stepsSegments (segments.map unnumberedSegment) = (stepsSegments segments).map Step.unnumbered := by
  induction segments with
  | nil => rfl
  | cons s later ih =>
    obtain ⟨heading, body⟩ := s
    obtain ⟨hbody, hlater⟩ := List.forall_mem_cons.mp hbodies
    rw [List.map_cons, unnumberedSegment, stepsSegments, stepsSegments, hbody, ih hlater, List.map_cons,
      List.map_append]
    rfl

theorem stepsAll_unnumbered (nodes : List Node) :
    stepsAll (nodes.map unnumbered) = (stepsAll nodes).map Step.unnumbered := by
  induction nodes using forest_induction with
  | nil => rfl
  | leaf line content later ih =>
    rw [List.map_cons, stepsAll, stepsAll, List.map_append, ih]
    rfl
  | block line segments later ihbodies ih =>
    rw [List.map_cons, stepsAll, stepsAll, List.map_append, ih, unnumbered_block, steps, steps,
      stepsSegments_unnumbered ihbodies]

theorem itemsSegments_unnumbered (find : ActorRef → Participant) {segments : List (Segment Node)}
    (hbodies : ∀ s ∈ segments, itemsAll find (s.body.map unnumbered) = itemsAll find s.body) :
    itemsSegments find (segments.map unnumberedSegment) = itemsSegments find segments := by
  induction segments with
  | nil => rfl
  | cons s later ih =>
    obtain ⟨heading, body⟩ := s
    obtain ⟨hbody, hlater⟩ := List.forall_mem_cons.mp hbodies
    rw [List.map_cons, unnumberedSegment, itemsSegments, itemsSegments, hbody, ih hlater]

theorem itemsAll_unnumbered (find : ActorRef → Participant) (nodes : List Node) :
    itemsAll find (nodes.map unnumbered) = itemsAll find nodes := by
  induction nodes using forest_induction with
  | nil => rfl
  | leaf line content later ih =>
    rw [List.map_cons, itemsAll, itemsAll, ih]
    rfl
  | block line segments later ihbodies ih =>
    rw [List.map_cons, itemsAll, itemsAll, ih, unnumbered_block, item?, item?,
      itemsSegments_unnumbered find ihbodies]

end Node

namespace Builder

/-- The other builder has the same icons and asks for no declaration that this one does not ask for. -/
structure Covers (b other : Builder ι) : Prop where
  icons : other.icons = b.icons
  strict : other.strict = true → b.strict = true

theorem Covers.refl (b : Builder ι) : b.Covers b := ⟨rfl, id⟩

namespace Covers

variable {b other : Builder ι} {d later : Draft ι} {line : Nat}

theorem resolve (h : b.Covers other) (line' : Nat) {ref : ActorRef} {found : Draft ι × Participant}
    (hfound : b.resolve d line ref = .ok found) : other.resolve d line' ref = .ok found := by
  unfold Builder.resolve at hfound ⊢
  cases ref with
  | named name =>
    dsimp only at hfound ⊢
    split at hfound
    · contradiction
    · rename_i hknown
      rw [if_neg fun hunknown => hknown ⟨h.strict hunknown.1, hunknown.2⟩]
      exact hfound
  | pseudo name =>
    dsimp only at hfound ⊢
    split at hfound
    · rwa [if_pos ‹_›]
    · split at hfound
      · rwa [if_neg ‹_›, if_pos ‹_›]
      · contradiction

theorem boxShown (line' : Nat) {actor : String} {given : Attribute} {shown : Bool}
    (hshown : Builder.boxShown line actor given = .ok shown) : Builder.boxShown line' actor given = .ok shown := by
  unfold Builder.boxShown at hshown ⊢
  dsimp only at hshown ⊢
  split at hshown
  · rwa [if_pos ‹_›]
  · split at hshown
    · rwa [if_neg ‹_›, if_pos ‹_›]
    · contradiction

theorem icon (h : b.Covers other) (line' : Nat) {actor name : String} {ref : IconRef ι}
    (hicon : b.icon line actor name = .ok ref) : other.icon line' actor name = .ok ref := by
  unfold Builder.icon at hicon ⊢
  rw [h.icons]
  split at hicon
  · exact hicon
  · contradiction
  · contradiction

theorem readAttribute (h : b.Covers other) (line' : Nat) {actor : String} {given : Attribute}
    {declaration read : Declaration ι} (hread : b.readAttribute line actor declaration given = .ok read) :
    other.readAttribute line' actor declaration given = .ok read := by
  unfold Builder.readAttribute at hread ⊢
  dsimp only at hread ⊢
  split at hread
  · obtain ⟨ref, hicon, hread⟩ := map_eq_ok.mp hread
    rw [if_pos ‹_›]
    exact map_eq_ok.mpr ⟨ref, h.icon line' hicon, hread⟩
  · split at hread
    · obtain ⟨shown, hshown, hread⟩ := map_eq_ok.mp hread
      rw [if_neg ‹_›, if_pos ‹_›]
      exact map_eq_ok.mpr ⟨shown, boxShown line' hshown, hread⟩
    · split at hread
      · obtain ⟨shown, hshown, hread⟩ := map_eq_ok.mp hread
        rw [if_neg ‹_›, if_neg ‹_›, if_pos ‹_›]
        exact map_eq_ok.mpr ⟨shown, boxShown line' hshown, hread⟩
      · contradiction

theorem readAttributes (h : b.Covers other) (line' : Nat) {actor : String} {given : List Attribute}
    {declaration read : Declaration ι} (hread : b.readAttributes line actor declaration given = .ok read) :
    other.readAttributes line' actor declaration given = .ok read := by
  induction given generalizing declaration with
  | nil => exact hread
  | cons first more ih =>
    obtain ⟨middle, hfirst, hmore⟩ := bind_eq_ok.mp hread
    exact bind_eq_ok.mpr ⟨middle, h.readAttribute line' hfirst, ih hmore⟩

theorem note (h : b.Covers other) (line' : Nat) {alignment : Alignment} {message : String} {refs : List ActorRef}
    {found : Draft ι × Note} (hfound : b.note d line alignment message refs = .ok found) :
    other.note d line' alignment message refs = .ok found := by
  match refs with
  | [] => contradiction
  | [ref] =>
    obtain ⟨first, hfirst, hfound⟩ := bind_eq_ok.mp hfound
    exact bind_eq_ok.mpr ⟨first, h.resolve line' hfirst, hfound⟩
  | [ref, second] =>
    obtain ⟨first, hfirst, hfound⟩ := bind_eq_ok.mp hfound
    obtain ⟨last, hlast, hfound⟩ := bind_eq_ok.mp hfound
    exact bind_eq_ok.mpr ⟨first, h.resolve line' hfirst, bind_eq_ok.mpr ⟨last, h.resolve line' hlast, hfound⟩⟩
  | _ :: _ :: _ :: _ => contradiction

theorem leaf (h : b.Covers other) (line' : Nat) {content : Leaf} {found : Draft ι × Option Item}
    (hfound : b.leaf d line content = .ok found) : other.leaf d line' content = .ok found := by
  cases content with
  | title | gap | instruction => exact hfound
  | actor name given description =>
    obtain ⟨middle, hdeclare, hfound⟩ := bind_eq_ok.mp hfound
    obtain ⟨declaration, hread, hdeclare⟩ := bind_eq_ok.mp hdeclare
    have hdeclared : other.declare d line' name given description = .ok middle :=
      bind_eq_ok.mpr ⟨declaration, h.readAttributes line' hread, hdeclare⟩
    exact bind_eq_ok.mpr ⟨middle, hdeclared, hfound⟩
  | action sender receiver arrow message =>
    obtain ⟨first, hsender, hfound⟩ := bind_eq_ok.mp hfound
    obtain ⟨last, hreceiver, hfound⟩ := bind_eq_ok.mp hfound
    exact bind_eq_ok.mpr ⟨first, h.resolve line' hsender, bind_eq_ok.mpr ⟨last, h.resolve line' hreceiver, hfound⟩⟩
  | note actors alignment message =>
    obtain ⟨middle, hnote, hfound⟩ := bind_eq_ok.mp hfound
    exact bind_eq_ok.mpr ⟨middle, h.note line' hnote, hfound⟩

theorem step (h : b.Covers other) {step step' : Step} (hsame : step.unnumbered = step'.unnumbered)
    {found : Draft ι × List Entry} (hfound : b.step d step = .ok found) : other.step d step' = .ok found := by
  cases step with
  | leaf line content =>
    cases step' with
    | header heading => contradiction
    | leaf line' content' =>
      obtain ⟨-, rfl⟩ := Step.leaf.inj hsame
      obtain ⟨here, hleaf, hfound⟩ := map_eq_ok.mp hfound
      exact map_eq_ok.mpr ⟨here, h.leaf line' hleaf, hfound⟩
  | header heading =>
    cases step' with
    | leaf line' content' => contradiction
    | header heading' =>
      obtain rfl := Step.header.inj hsame
      exact hfound

theorem walk (h : b.Covers other) {steps steps' : List Step}
    (hsame : steps.map Step.unnumbered = steps'.map Step.unnumbered) {found : Draft ι × List Entry}
    (hfound : b.walk d steps = .ok found) : other.walk d steps' = .ok found := by
  induction steps generalizing d steps' found with
  | nil =>
    obtain rfl := List.map_eq_nil_iff.mp hsame.symm
    exact hfound
  | cons step steps ih =>
    obtain ⟨step', steps', rfl, hstep, hsteps⟩ := List.map_eq_cons_iff.mp hsame.symm
    obtain ⟨here, hhere, hfound⟩ := bind_eq_ok.mp hfound
    obtain ⟨rest, hrest, hfound⟩ := bind_eq_ok.mp hfound
    exact bind_eq_ok.mpr ⟨here, h.step hstep.symm hhere, bind_eq_ok.mpr ⟨rest, ih hsteps.symm hrest, hfound⟩⟩

theorem build (h : b.Covers other) {nodes nodes' : List Node}
    (hsame : nodes.map Node.unnumbered = nodes'.map Node.unnumbered) {d : Diagram ι}
    (hd : b.build nodes = .ok d) : other.build nodes' = .ok d := by
  have hsteps : (Node.stepsAll nodes).map Step.unnumbered = (Node.stepsAll nodes').map Step.unnumbered := by
    rw [← Node.stepsAll_unnumbered, hsame, Node.stepsAll_unnumbered]
  rw [build_eq_walk] at hd ⊢
  obtain ⟨found, hfound, rfl⟩ := map_eq_ok.mp hd
  refine map_eq_ok.mpr ⟨found, h.walk hsteps hfound, ?_⟩
  unfold Draft.diagram
  rw [← Node.itemsAll_unnumbered, ← hsame, Node.itemsAll_unnumbered]

end Covers

end Builder

/-- The names of the actors that a statement refers to, from left to right; a declaration refers to none. -/
def Leaf.references : Leaf → List String
  | .action sender receiver _ _ => sender.names ++ receiver.names
  | .note actors _ _ => actors.flatMap ActorRef.names
  | _ => []

namespace Step

def undeclared (declared : List String) : Step → List (Nat × String)
  | .leaf line content => (content.references.filter (· ∉ declared)).map (line, ·)
  | .header _ => []

def undeclaredAll (declared : List String) : List Step → List (Nat × String)
  | [] => []
  | step :: later => step.undeclared declared ++ undeclaredAll (declared ++ step.declares) later

end Step

/-- The references of a script to actors that are not declared before, in the order of a walk through its nodes. -/
def Node.undeclared (nodes : List Node) : List (Nat × String) := Step.undeclaredAll [] (Node.stepsAll nodes)

def BuildError.atReference (reference : Nat × String) : BuildError := .undeclared reference.1 reference.2

section Strict

variable (icons : IconSet ι) (declared : List String)

theorem ActorRef.faults_strict (line : Nat) {ref : ActorRef} (h : ref.faults ⟨icons, false⟩ declared line = []) :
    ref.faults ⟨icons, true⟩ declared line =
      (ref.names.filter (· ∉ declared)).map fun name => .atReference (line, name) := by
  cases ref with
  | named name => by_cases hname : name ∈ declared <;> simp [faults, names, hname, BuildError.atReference]
  | pseudo name => exact h

theorem Leaf.faults_strict {line : Nat} {content : Leaf} (h : content.faults ⟨icons, false⟩ declared line = []) :
    content.faults ⟨icons, true⟩ declared line =
      (content.references.filter (· ∉ declared)).map fun name => .atReference (line, name) := by
  cases content with
  | actor name given description => exact h
  | action sender receiver arrow message =>
    obtain ⟨hsender, hreceiver⟩ := List.append_eq_nil_iff.mp h
    rw [faults, references, List.filter_append, List.map_append, ActorRef.faults_strict icons declared line hsender,
      ActorRef.faults_strict icons declared line hreceiver]
  | note actors alignment message =>
    obtain ⟨hcount, hactors⟩ := List.append_eq_nil_iff.mp h
    rw [faults, references, hcount, List.nil_append, List.filter_flatMap, List.map_flatMap]
    exact List.flatMap_congr fun ref href =>
      ActorRef.faults_strict icons declared line (List.flatMap_eq_nil_iff.mp hactors ref href)
  | title | gap | instruction => rfl

theorem Step.faultsAll_strict {steps : List Step} (h : faultsAll ⟨icons, false⟩ declared steps = []) :
    faultsAll ⟨icons, true⟩ declared steps = (undeclaredAll declared steps).map BuildError.atReference := by
  induction steps generalizing declared with
  | nil => rfl
  | cons step later ih =>
    obtain ⟨hstep, hlater⟩ := List.append_eq_nil_iff.mp h
    rw [faultsAll, undeclaredAll, List.map_append, ih _ hlater]
    congr 1
    cases step with
    | leaf line content =>
      rw [faults, undeclared, Leaf.faults_strict icons declared hstep, List.map_map]
      rfl
    | header heading => rfl

end Strict

namespace Builder

theorem covers_lenient (icons : IconSet ι) : (⟨icons, true⟩ : Builder ι).Covers ⟨icons, false⟩ := ⟨rfl, nofun⟩

/-- Where nothing else is wrong, missing declarations are all that can be reported. -/
theorem reports_undeclared {icons : IconSet ι} {nodes : List Node} {d : Diagram ι}
    (h : build ⟨icons, false⟩ nodes = .ok d) :
    Reports ((Node.undeclared nodes).map BuildError.atReference) (build ⟨icons, true⟩ nodes) := by
  have hnone := (reports_build ⟨icons, false⟩ nodes).of_ok h
  have hreports := reports_build ⟨icons, true⟩ nodes
  unfold Node.faults at hnone hreports
  rwa [Step.faultsAll_strict icons [] hnone] at hreports

/-- Asking for declarations only rejects scripts and never changes a diagram. A script that is built although its
actors have to be declared is built the same where they need not be. One that is built where they need not be is
built the same, or fails at its first reference to an actor that is not declared before, if there is one. -/
theorem strict_only_rejects (icons : IconSet ι) (nodes : List Node) :
    (∀ d, build ⟨icons, true⟩ nodes = .ok d → build ⟨icons, false⟩ nodes = .ok d) ∧
      ∀ d, build ⟨icons, false⟩ nodes = .ok d →
        (build ⟨icons, true⟩ nodes = .ok d ↔ Node.undeclared nodes = []) ∧
          ∀ fault, build ⟨icons, true⟩ nodes = .error fault ↔
            ∃ line name, (Node.undeclared nodes).head? = some (line, name) ∧ fault = .undeclared line name := by
  have hsame : ∀ d, build ⟨icons, true⟩ nodes = .ok d → build ⟨icons, false⟩ nodes = .ok d :=
    fun d => (covers_lenient icons).build rfl
  refine ⟨hsame, fun d hd => ⟨?_, fun fault => ?_⟩⟩
  · have hok := (reports_undeclared hd).isOk_iff_nil
    rw [List.map_eq_nil_iff, isOk_iff] at hok
    rw [← hok]
    refine ⟨fun h => ⟨d, h⟩, ?_⟩
    rintro ⟨found, hfound⟩
    obtain rfl := Except.ok.inj ((hsame found hfound).symm.trans hd)
    exact hfound
  · rw [(reports_undeclared hd).eq_error_iff, List.head?_map, Option.map_eq_some_iff]
    constructor
    · rintro ⟨⟨line, name⟩, hhead, rfl⟩
      exact ⟨line, name, hhead, rfl⟩
    · rintro ⟨line, name, hhead, rfl⟩
      exact ⟨(line, name), hhead, rfl⟩

def lateSample : List Node :=
  [.block 1 [⟨.loop "", [.leaf 2 (.actor "a" [⟨"icon", "human"⟩] (some "A")),
      .leaf 3 (.action (.named "a") (.named "b") .response "")]⟩],
    .leaf 5 (.actor "b" [] none), .leaf 6 (.note [.named "b", .named "c"] .over ""),
    .leaf 7 (.action (.pseudo "left") (.named "b") .sync "")]

theorem strict_only_rejects_lateSample :
    (∃ d, build ⟨BuiltinIcon.set, true⟩ [.leaf 1 (.actor "a" [] none)] = .ok d ∧
      build ⟨BuiltinIcon.set, false⟩ [.leaf 1 (.actor "a" [] none)] = .ok d) ∧
    (∃ d, build ⟨BuiltinIcon.set, false⟩ lateSample = .ok d) ∧
      Node.undeclared lateSample = [(3, "b"), (6, "c")] ∧
      build ⟨BuiltinIcon.set, true⟩ lateSample = .error (.undeclared 3 "b") := by
  have hstrict : (build ⟨BuiltinIcon.set, true⟩ [.leaf 1 (.actor "a" [] none)]).isOk := by decide +kernel
  obtain ⟨declared, hdeclared⟩ := isOk_iff.mp hstrict
  have hlenient : (build ⟨BuiltinIcon.set, false⟩ lateSample).isOk := by decide +kernel
  obtain ⟨d, hd⟩ := isOk_iff.mp hlenient
  have hundeclared : Node.undeclared lateSample = [(3, "b"), (6, "c")] := by decide +kernel
  obtain ⟨-, hfault⟩ := (strict_only_rejects BuiltinIcon.set lateSample).2 d hd
  exact ⟨⟨declared, hdeclared, (strict_only_rejects BuiltinIcon.set _).1 declared hdeclared⟩, ⟨d, hd⟩, hundeclared,
    (hfault _).mpr ⟨3, "b", by rw [hundeclared]; rfl, rfl⟩⟩

end Builder

end SequenceChart
