import SequenceChart.Proofs.Diagram.References

/-! The faults of a script, all of them, in the order in which a walk through the nodes meets them. Building a
diagram fails exactly when there is one, and it fails with the first. -/

namespace SequenceChart

variable {ι : Type}

/-- The outcome is the first of these faults, or no failure if there is none. -/
def Reports {ε α : Type} (faults : List ε) : Except ε α → Prop
  | .ok _ => faults = []
  | .error fault => faults.head? = some fault

namespace Reports

variable {ε α β : Type} {faults later : List ε} {outcome : Except ε α}

theorem of_ok {value : α} (h : Reports faults outcome) (hok : outcome = .ok value) : faults = [] := by
  subst hok
  exact h

theorem map (h : Reports faults outcome) (f : α → β) : Reports faults (outcome.map f) := by
  cases outcome with
  | ok value => exact h
  | error fault => exact h

theorem mapError {δ : Type} (h : Reports faults outcome) (f : ε → δ) :
    Reports (faults.map f) (outcome.mapError f) := by
  cases outcome with
  | ok value =>
    rw [h.of_ok rfl]
    rfl
  | error fault =>
    have hhead : faults.head? = some fault := h
    change (faults.map f).head? = some (f fault)
    rw [List.head?_map, hhead, Option.map_some]

theorem bind (h : Reports faults outcome) {second : α → Except ε β}
    (hsecond : ∀ value, outcome = .ok value → Reports later (second value)) :
    Reports (faults ++ later) (outcome >>= second) := by
  cases outcome with
  | ok value =>
    rw [h.of_ok rfl, List.nil_append]
    exact hsecond value rfl
  | error fault =>
    have hhead : faults.head? = some fault := h
    change (faults ++ later).head? = some fault
    rw [List.head?_append, hhead, Option.some_or]

theorem bind_ok (h : Reports faults outcome) (f : α → β) :
    Reports faults (outcome >>= fun value => .ok (f value)) := by
  have hbind : Reports (faults ++ []) (outcome >>= fun value => .ok (f value)) := h.bind fun _ _ => rfl
  rwa [List.append_nil] at hbind

theorem isOk_iff_nil (h : Reports faults outcome) : outcome.isOk = true ↔ faults = [] := by
  cases outcome with
  | ok value => exact iff_of_true rfl h
  | error fault =>
    have hhead : faults.head? = some fault := h
    refine iff_of_false nofun ?_
    rintro rfl
    contradiction

theorem eq_error_iff (h : Reports faults outcome) (fault : ε) :
    outcome = .error fault ↔ faults.head? = some fault := by
  cases outcome with
  | ok value => simp [h.of_ok rfl]
  | error first =>
    have hhead : faults.head? = some first := h
    rw [hhead, Except.error.injEq, Option.some_inj]

end Reports

def ActorRef.faults (b : Builder ι) (declared : List String) (line : Nat) : ActorRef → List BuildError
  | .named name => if b.strict ∧ name ∉ declared then [.undeclared line name] else []
  | .pseudo name => if Text.foldCase name ∈ ["left", "right"] then [] else [.pseudoActor line name]

namespace Attribute

def boxFaults (line : Nat) (actor : String) (given : Attribute) : List BuildError :=
  if Text.foldCase given.value ∈ ["none", "box"] then [] else [.attributeValue line actor given]

def iconFaults (b : Builder ι) (line : Nat) (actor : String) (given : Attribute) : List BuildError :=
  match b.icons given.value with
  | .ok _ => []
  | .error (.notFound _) => [.iconNotFound line actor given.value]
  | .error (.resource failure) => [.resource failure]

def faults (b : Builder ι) (line : Nat) (actor : String) (given : Attribute) : List BuildError :=
  if Text.foldCase given.name = "icon" then given.iconFaults b line actor
  else if Text.foldCase given.name ∈ ["header", "footer"] then given.boxFaults line actor
  else [.unknownAttribute line actor given.name]

end Attribute

namespace Leaf

def declares : Leaf → List String
  | .actor name _ _ => [name]
  | _ => []

/-- The faults of a statement that follows the declarations of these names. A note has its actors counted
before it has them looked up. -/
def faults (b : Builder ι) (declared : List String) (line : Nat) : Leaf → List BuildError
  | .actor name given _ => given.flatMap (·.faults b line name)
  | .action sender receiver _ _ => sender.faults b declared line ++ receiver.faults b declared line
  | .note actors _ _ =>
    (if actors.length ∈ [1, 2] then [] else [.noteActors line actors.length]) ++
      actors.flatMap (·.faults b declared line)
  | _ => []

theorem names_of_declares {content : Leaf} {name : String} (h : name ∈ content.declares) :
    name ∈ content.names := by
  cases content with
  | actor => exact h
  | _ => nomatch h

end Leaf

namespace Step

def declares : Step → List String
  | .leaf _ content => content.declares
  | .header _ => []

def faults (b : Builder ι) (declared : List String) : Step → List BuildError
  | .leaf line content => content.faults b declared line
  | .header _ => []

def faultsAll (b : Builder ι) (declared : List String) : List Step → List BuildError
  | [] => []
  | step :: later => step.faults b declared ++ faultsAll b (declared ++ step.declares) later

end Step

/-- All faults of a script, in the order of a walk through its nodes. -/
def Node.faults (b : Builder ι) (nodes : List Node) : List BuildError :=
  Step.faultsAll b [] (Node.stepsAll nodes)

theorem ActorRef.declared_of_names {b : Builder ι} (hstrict : b.strict = true) {declared : List String}
    {line : Nat} {ref : ActorRef} (h : ref.faults b declared line = []) :
    ∀ name ∈ ref.names, name ∈ declared := by
  cases ref with
  | pseudo name => nofun
  | named name =>
    simp only [faults, hstrict, true_and] at h
    simpa [ActorRef.names] using h

theorem Leaf.declared_of_names {b : Builder ι} (hstrict : b.strict = true) {declared : List String}
    {line : Nat} {content : Leaf} (h : content.faults b declared line = []) :
    ∀ name ∈ content.names, name ∈ declared ++ content.declares := by
  intro name hname
  rw [List.mem_append]
  cases content with
  | actor => exact .inr hname
  | action sender receiver arrow message =>
    obtain ⟨hsender, hreceiver⟩ := List.append_eq_nil_iff.mp h
    left
    obtain hname | hname := List.mem_append.mp hname
    · exact ActorRef.declared_of_names hstrict hsender name hname
    · exact ActorRef.declared_of_names hstrict hreceiver name hname
  | note actors alignment message =>
    obtain ⟨_, hactors⟩ := List.append_eq_nil_iff.mp h
    obtain ⟨ref, href, hname⟩ := List.mem_flatMap.mp hname
    exact .inl (ActorRef.declared_of_names hstrict (List.flatMap_eq_nil_iff.mp hactors ref href) name hname)
  | _ => nomatch hname

namespace Builder

/-- The draft has the actors named so far, which are those declared so far where they have to be. -/
structure Sees (b : Builder ι) (d : Draft ι) (seen declared : List String) : Prop where
  knows : d.Knows seen
  declared : b.strict = true → ∀ name, name ∈ seen ↔ name ∈ declared

variable {b : Builder ι} {d later : Draft ι} {line : Nat} {seen declared : List String}

theorem sees_empty (b : Builder ι) : b.Sees .empty [] [] := ⟨Draft.knows_empty, fun _ _ => Iff.rfl⟩

theorem Sees.grow (h : b.Sees d seen declared) {names more : List String} (hknows : later.Knows (seen ++ names))
    (hdeclared : b.strict = true → ∀ name ∈ names, name ∈ declared ++ more)
    (hnames : ∀ name ∈ more, name ∈ names) : b.Sees later (seen ++ names) (declared ++ more) where
  knows := hknows
  declared hstrict name := by
    have hbefore := h.declared hstrict name
    have hhere := hdeclared hstrict name
    have hmore := hnames name
    simp only [List.mem_append] at hhere ⊢
    tauto

theorem Sees.mem_names (h : b.Sees d seen declared) (hstrict : b.strict = true) (name : String) :
    name ∈ d.names ↔ name ∈ declared := by
  have hknows : d.names = seen.eraseDups := h.knows
  rw [hknows, List.mem_eraseDups, h.declared hstrict]

theorem reports_resolve (h : b.Sees d seen declared) (line : Nat) (ref : ActorRef) :
    Reports (ref.faults b declared line) (b.resolve d line ref) := by
  unfold resolve ActorRef.faults
  cases ref with
  | named name =>
    have hsame : (b.strict = true ∧ (d.rank? name).isNone = true) ↔ b.strict = true ∧ name ∉ declared := by
      refine and_congr_right fun hstrict => ?_
      rw [Option.isNone_iff_eq_none, Draft.rank?_eq_none_iff, h.mem_names hstrict]
    dsimp only
    rw [if_congr hsame rfl rfl]
    split
    · rfl
    · rfl
  | pseudo name =>
    by_cases hleft : Text.foldCase name = "left"
    · simp [hleft, Reports]
    · by_cases hright : Text.foldCase name = "right"
      · simp [hright, Reports]
      · simp [hleft, hright, Reports]

theorem sees_resolve (h : b.Sees d seen declared) {ref : ActorRef} {p : Participant}
    (hresolve : b.resolve d line ref = .ok (later, p)) : b.Sees later (seen ++ ref.names) declared := by
  have hnone := (reports_resolve h line ref).of_ok hresolve
  have hgrown : b.Sees later (seen ++ ref.names) (declared ++ []) :=
    h.grow (knows_resolve hresolve h.knows)
      (fun hstrict name hname => List.mem_append_left _ (ActorRef.declared_of_names hstrict hnone name hname))
      nofun
  rwa [List.append_nil] at hgrown

theorem reports_boxShown (line : Nat) (actor : String) (given : Attribute) :
    Reports (given.boxFaults line actor) (boxShown line actor given) := by
  unfold boxShown Attribute.boxFaults
  by_cases hnone : Text.foldCase given.value = "none"
  · simp [hnone, Reports]
  · by_cases hbox : Text.foldCase given.value = "box"
    · simp [hbox, Reports]
    · simp [hnone, hbox, Reports]

theorem reports_icon (b : Builder ι) (line : Nat) (actor : String) (given : Attribute) :
    Reports (given.iconFaults b line actor) (b.icon line actor given.value) := by
  unfold icon Attribute.iconFaults
  cases b.icons given.value with
  | ok icon => rfl
  | error failure => cases failure <;> rfl

theorem reports_readAttribute (b : Builder ι) (line : Nat) (actor : String) (d : Declaration ι)
    (given : Attribute) : Reports (given.faults b line actor) (b.readAttribute line actor d given) := by
  have hbox := reports_boxShown line actor given
  unfold readAttribute Attribute.faults
  by_cases hicon : Text.foldCase given.name = "icon"
  · simpa only [hicon, if_true] using (reports_icon b line actor given).map _
  · by_cases hheader : Text.foldCase given.name = "header"
    · simpa [hheader] using hbox.map _
    · by_cases hfooter : Text.foldCase given.name = "footer"
      · simpa [hfooter] using hbox.map _
      · simp [hicon, hheader, hfooter, Reports]

theorem reports_readAttributes (b : Builder ι) (line : Nat) (actor : String) (d : Declaration ι)
    (given : List Attribute) :
    Reports (given.flatMap (·.faults b line actor)) (b.readAttributes line actor d given) := by
  induction given generalizing d with
  | nil => rfl
  | cons given later ih => exact (reports_readAttribute b line actor d given).bind fun d _ => ih d

theorem reports_declare (b : Builder ι) (d : Draft ι) (line : Nat) (name : String) (given : List Attribute)
    (description : Option String) :
    Reports (given.flatMap (·.faults b line name)) (b.declare d line name given description) := by
  exact (reports_readAttributes b line name .empty given).bind_ok fun declaration =>
    (d.mention name).1.modify (d.mention name).2 (declaration.applyTo description)
      (declaration.name_applyTo description)

theorem reports_note (h : b.Sees d seen declared) (line : Nat) (alignment : Alignment) (message : String)
    (refs : List ActorRef) :
    Reports ((Leaf.note refs alignment message).faults b declared line)
      (b.note d line alignment message refs) := by
  match refs with
  | [] => rfl
  | [ref] => exact (reports_resolve h line ref).bind fun _ _ => rfl
  | [ref, other] =>
    refine (reports_resolve h line ref).bind fun found hfirst => ?_
    exact (reports_resolve (sees_resolve h hfirst) line other).bind fun _ _ => rfl
  | ref :: other :: third :: more =>
    have hcount : (ref :: other :: third :: more).length ∉ [1, 2] := by simp
    rw [Leaf.faults, if_neg hcount]
    rfl

theorem reports_leaf (h : b.Sees d seen declared) (line : Nat) (content : Leaf) :
    Reports (content.faults b declared line) (b.leaf d line content) := by
  unfold leaf
  cases content with
  | actor name given description =>
    exact (reports_declare b d line name given description).bind_ok fun d => (d, none)
  | action sender receiver arrow message =>
    refine (reports_resolve h line sender).bind fun found hsender => ?_
    exact (reports_resolve (sees_resolve h hsender) line receiver).bind_ok fun last =>
      (last.1, some (Item.action ⟨found.2, last.2, arrow, message⟩))
  | note actors alignment message =>
    exact (reports_note h line alignment message actors).bind_ok fun found =>
      (found.1, some (Item.note found.2))
  | title | gap | instruction => rfl

theorem reports_step (h : b.Sees d seen declared) (step : Step) :
    Reports (step.faults b declared) (b.step d step) := by
  cases step with
  | leaf line content => exact (reports_leaf h line content).map _
  | header heading => rfl

theorem sees_step (h : b.Sees d seen declared) {step : Step} {entries : List Entry}
    (hstep : b.step d step = .ok (later, entries)) :
    b.Sees later (seen ++ step.names) (declared ++ step.declares) := by
  have hnone := (reports_step h step).of_ok hstep
  refine h.grow (knows_step hstep h.knows) ?_ ?_
  · cases step with
    | leaf line content => exact fun hstrict => Leaf.declared_of_names hstrict hnone
    | header heading => nofun
  · cases step with
    | leaf line content => exact fun _ => Leaf.names_of_declares
    | header heading => nofun

/-- A walk stops at the first fault of the steps that it is to take. -/
theorem reports_walk (h : b.Sees d seen declared) (steps : List Step) :
    Reports (Step.faultsAll b declared steps) (b.walk d steps) := by
  induction steps generalizing d seen declared with
  | nil => rfl
  | cons step steps ih =>
    refine (reports_step h step).bind fun found hstep => ?_
    exact (ih (sees_step h hstep)).bind_ok fun last => (last.1, found.2 ++ last.2)

theorem reports_build (b : Builder ι) (nodes : List Node) : Reports (Node.faults b nodes) (b.build nodes) := by
  have hwalk := reports_walk (sees_empty b) (Node.stepsAll nodes)
  rw [← walk_nodes] at hwalk
  unfold build
  cases hnodes : b.nodes .empty nodes with
  | ok found =>
    rw [hnodes] at hwalk
    exact hwalk
  | error fault =>
    rw [hnodes] at hwalk
    exact hwalk

/-- A diagram is built exactly from the nodes that have no fault; from others the first of their faults, in
the order of a walk through them, is what comes back. -/
theorem build_reports_first_fault (b : Builder ι) (nodes : List Node) :
    ((b.build nodes).isOk = true ↔ Node.faults b nodes = []) ∧
      ∀ fault, b.build nodes = .error fault ↔ (Node.faults b nodes).head? = some fault :=
  ⟨(reports_build b nodes).isOk_iff_nil, (reports_build b nodes).eq_error_iff⟩

example : Node.faults ⟨BuiltinIcon.set, true⟩
    [.leaf 1 (.actor "a" [⟨"Header", "NONE"⟩] none),
      .block 2 [⟨.loop "", [.leaf 3 (.action (.named "a") (.named "b") .sync ""),
        .leaf 4 (.note [.pseudo "LEFT", .named "a", .pseudo "top"] .over "")]⟩],
      .leaf 6 (.actor "b" [⟨"colour", "red"⟩, ⟨"icon", "ghost"⟩, ⟨"footer", "maybe"⟩] none),
      .leaf 7 (.action (.named "b") (.named "a") .response "")] =
    [.undeclared 3 "b", .noteActors 4 3, .pseudoActor 4 "top", .unknownAttribute 6 "b" "colour",
      .iconNotFound 6 "b" "ghost", .attributeValue 6 "b" ⟨"footer", "maybe"⟩] := by
  decide +kernel

end Builder

end SequenceChart
