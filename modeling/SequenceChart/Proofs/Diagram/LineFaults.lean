import SequenceChart.Proofs.Diagram.Faults
import SequenceChart.Proofs.Diagram.Loaded
import SequenceChart.Proofs.Text

/-! Faults line by line. Where actors need no declaration, what is wrong with a line is wrong with it alone: other
lines neither hide nor cause it, and as a script of its own the line has the same error. -/

namespace SequenceChart

namespace BuildError

def atLine (line : Nat) : BuildError → BuildError
  | pseudoActor _ name => pseudoActor line name
  | undeclared _ name => undeclared line name
  | iconNotFound _ actor icon => iconNotFound line actor icon
  | unknownAttribute _ actor name => unknownAttribute line actor name
  | attributeValue _ actor given => attributeValue line actor given
  | noteActors _ count => noteActors line count
  | resource failure => resource failure

/-- The errors that a line can have once it has been read. -/
inductive OfLine (line : Nat) : BuildError → Prop
  | pseudoActor (name : String) : OfLine line (pseudoActor line name)
  | iconNotFound (actor icon : String) : OfLine line (iconNotFound line actor icon)
  | unknownAttribute (actor name : String) : OfLine line (unknownAttribute line actor name)
  | attributeValue (actor : String) (given : Attribute) : OfLine line (attributeValue line actor given)

end BuildError

section Lenient

variable {ι : Type} {b : Builder ι}

namespace ActorRef

theorem faults_of_lenient (hb : b.strict = false) (declared : List String) (line : Nat) (ref : ActorRef) :
    ref.faults b declared line = ref.faults b [] line := by
  cases ref with
  | named name => simp [faults, hb]
  | pseudo name => rfl

theorem faults_atLine (declared : List String) (line other : Nat) (ref : ActorRef) :
    (ref.faults b declared line).map (·.atLine other) = ref.faults b declared other := by
  cases ref with
  | named name =>
    rw [faults, faults]
    split <;> rfl
  | pseudo name =>
    rw [faults, faults]
    split <;> rfl

end ActorRef

theorem Attribute.faults_atLine (line other : Nat) (actor : String) (given : Attribute) :
    (given.faults b line actor).map (·.atLine other) = given.faults b other actor := by
  have hicon : (given.iconFaults b line actor).map (·.atLine other) = given.iconFaults b other actor := by
    unfold iconFaults
    split <;> rfl
  have hbox : (given.boxFaults line actor).map (·.atLine other) = given.boxFaults other actor := by
    unfold boxFaults
    split <;> rfl
  unfold faults
  split
  · exact hicon
  · split
    · exact hbox
    · rfl

namespace Leaf

theorem faults_of_lenient (hb : b.strict = false) (declared : List String) (line : Nat) (content : Leaf) :
    content.faults b declared line = content.faults b [] line := by
  have href := ActorRef.faults_of_lenient hb declared line
  cases content with
  | action sender receiver arrow message => rw [faults, faults, href sender, href receiver]
  | note actors alignment message =>
    rw [faults, faults]
    exact congrArg (_ ++ ·) (List.flatMap_congr fun ref _ => href ref)
  | _ => rfl

theorem faults_atLine (declared : List String) (line other : Nat) (content : Leaf) :
    (content.faults b declared line).map (·.atLine other) = content.faults b declared other := by
  cases content with
  | actor name given description =>
    rw [faults, faults, List.map_flatMap]
    exact List.flatMap_congr fun a _ => a.faults_atLine line other name
  | action sender receiver arrow message =>
    rw [faults, faults, List.map_append, sender.faults_atLine, receiver.faults_atLine]
  | note actors alignment message =>
    rw [faults, faults, List.map_append, List.map_flatMap]
    congr 1
    · split <;> rfl
    · exact List.flatMap_congr fun ref _ => ref.faults_atLine declared line other
  | _ => rfl

def involvesActors : Leaf → Bool
  | .actor _ _ _ => true
  | .action _ _ _ _ => true
  | .note _ _ _ => true
  | _ => false

theorem faults_of_not_involvesActors {content : Leaf} (h : content.involvesActors = false) (line : Nat) :
    content.faults b [] line = [] := by
  cases content <;> first | rfl | contradiction

end Leaf

/-- The faults of a statement on a line. Openings, branches and ends of blocks have none. -/
def Statement.faults (b : Builder ι) (line : Nat) : Statement → List BuildError
  | .leaf content => content.faults b [] line
  | _ => []

theorem Statement.faults_mark (line : Nat) (s : Statement) :
    (s.mark line).2.faults b ((s.mark line).1.getD 0) = s.faults b line := by
  cases s <;> rfl

theorem Step.faultsAll_of_lenient (hb : b.strict = false) (declared : List String) (steps : List Step) :
    Step.faultsAll b declared steps = steps.flatMap (·.faults b []) := by
  induction steps generalizing declared with
  | nil => rfl
  | cons step later ih =>
    rw [faultsAll, List.flatMap_cons, ih]
    cases step with
    | leaf line content => exact congrArg (· ++ _) (content.faults_of_lenient hb declared line)
    | header heading => rfl

namespace Node

theorem faults_outlineSegments {segments : List (Segment Node)}
    (hbodies : ∀ s ∈ segments, (stepsAll s.body).flatMap (·.faults b []) =
      (outlineAll s.body).flatMap fun m => m.2.faults b (m.1.getD 0)) (opener : Option Nat) :
    (stepsSegments segments).flatMap (·.faults b []) =
      (outlineSegments opener segments).flatMap fun m => m.2.faults b (m.1.getD 0) := by
  induction segments generalizing opener with
  | nil => rfl
  | cons s later ih =>
    obtain ⟨heading, body⟩ := s
    obtain ⟨hbody, hlater⟩ := List.forall_mem_cons.mp hbodies
    have hmark : (segmentMark opener heading).2.faults b ((segmentMark opener heading).1.getD 0) = [] := by
      cases opener <;> rfl
    rw [stepsSegments, outlineSegments, List.flatMap_cons, List.flatMap_cons, hmark, List.flatMap_append,
      List.flatMap_append, hbody, ih hlater none]
    rfl

theorem faults_outline (nodes : List Node) :
    (stepsAll nodes).flatMap (·.faults b []) =
      (outlineAll nodes).flatMap fun m => m.2.faults b (m.1.getD 0) := by
  induction nodes using forest_induction with
  | nil => rfl
  | leaf line content later ih =>
    rw [stepsAll, outlineAll, List.flatMap_append, List.flatMap_append, ih]
    rfl
  | block line segments later ihbodies ih =>
    rw [stepsAll, outlineAll, List.flatMap_append, List.flatMap_append, ih, steps, outline, List.flatMap_append,
      faults_outlineSegments ihbodies (some line)]
    simp [Statement.faults]

theorem faults_settings {settings : List Node} (h : ∀ node ∈ settings, node.isSetting = true) :
    (stepsAll settings).flatMap (·.faults b []) = [] := by
  induction settings with
  | nil => rfl
  | cons node settings ih =>
    obtain ⟨hnode, hsettings⟩ := List.forall_mem_cons.mp h
    obtain ⟨line, setting, rfl⟩ := exists_of_isSetting hnode
    rw [stepsAll, List.flatMap_append, ih hsettings]
    rfl

end Node

namespace Script

def lineFaults (b : Builder ι) (line : Nat) (text : List Char) : List BuildError :=
  match Statement.ofLine text with
  | .ok (some s) => s.faults b line
  | _ => []

theorem lineFaults_atLine (line other : Nat) (text : List Char) :
    (lineFaults b line text).map (·.atLine other) = lineFaults b other text := by
  unfold lineFaults
  split
  · rename_i s _
    cases s with
    | leaf content => exact content.faults_atLine [] line other
    | _ => rfl
  · rfl

theorem faults_numbered (line : Nat) (lines : List (List Char)) :
    (numbered line lines).flatMap (fun s => s.2.faults b s.1) =
      (lines.zipIdx line).flatMap fun l => lineFaults b l.2 l.1 := by
  induction lines generalizing line with
  | nil => rfl
  | cons text later ih =>
    rw [List.zipIdx_cons, List.flatMap_cons, ← ih, numbered, lineFaults]
    cases Statement.ofLine text with
    | error fault => rfl
    | ok found => cases found <;> rfl

theorem faults_filter (statements : List (Nat × Statement)) :
    (statements.filter (!·.2.isSetting)).flatMap (fun s => s.2.faults b s.1) =
      statements.flatMap fun s => s.2.faults b s.1 := by
  induction statements with
  | nil => rfl
  | cons s later ih =>
    obtain ⟨line, s⟩ := s
    cases hs : s.isSetting with
    | true =>
      obtain ⟨setting, rfl⟩ := Assembly.exists_setting hs
      exact ih
    | false => rw [List.filter_cons_of_pos (by simp [hs]), List.flatMap_cons, List.flatMap_cons, ih]

/-- The faults of a script are those of its lines, one line after the other: blocks do not reorder them, and
settings, which come first among the nodes, have none. -/
theorem faults_of_parse (hb : b.strict = false) {text : String} {nodes : List Node} (h : parse text = .ok nodes) :
    Node.faults b nodes = ((Text.lines text.toList).zipIdx 1).flatMap fun l => lineFaults b l.2 l.1 := by
  obtain ⟨settings, shaped, rfl, hsettings, _, houtline⟩ := shaped_of_parse h
  calc Node.faults b (settings ++ shaped)
    _ = (Node.outlineAll shaped).flatMap fun m => m.2.faults b (m.1.getD 0) := by
      rw [Node.faults, Step.faultsAll_of_lenient hb, Node.stepsAll_append, List.flatMap_append,
        Node.faults_settings hsettings, Node.faults_outline, List.nil_append]
    _ = (blockStatements text).flatMap fun s => s.2.faults b s.1 := by
      rw [houtline, List.flatMap_map]
      exact List.flatMap_congr fun s _ => s.2.faults_mark s.1
    _ = ((Text.lines text.toList).zipIdx 1).flatMap fun l => lineFaults b l.2 l.1 := by
      rw [blockStatements, faults_filter, faults_numbered]

theorem first_fault {start : Nat} {lines : List (List Char)} {fault : BuildError}
    (h : ((lines.zipIdx start).flatMap fun l => lineFaults b l.2 l.1).head? = some fault) :
    ∃ before line after first, lines = before ++ line :: after ∧ (∀ earlier ∈ before, lineFaults b 1 earlier = []) ∧
      (lineFaults b 1 line).head? = some first ∧ fault = first.atLine (start + before.length) := by
  induction lines generalizing start with
  | nil => contradiction
  | cons text later ih =>
    rw [List.zipIdx_cons, List.flatMap_cons, ← lineFaults_atLine 1 start text] at h
    cases hfaults : lineFaults b 1 text with
    | nil =>
      rw [hfaults, List.map_nil, List.nil_append] at h
      obtain ⟨before, line, after, first, rfl, hbefore, hfirst, hfault⟩ := ih h
      refine ⟨text :: before, line, after, first, rfl, List.forall_mem_cons.mpr ⟨hfaults, hbefore⟩, hfirst, ?_⟩
      rw [hfault, List.length_cons, Nat.add_right_comm, Nat.add_assoc]
    | cons first more =>
      rw [hfaults, List.map_cons, List.cons_append, List.head?_cons, Option.some_inj] at h
      exact ⟨[], text, later, first, rfl, nofun, by rw [hfaults]; rfl, h.symm⟩

def involvesActors (line : List Char) : Bool :=
  match Statement.ofLine line with
  | .ok (some (.leaf content)) => content.involvesActors
  | _ => false

theorem lineFaults_of_not_involvesActors {text : List Char} (h : involvesActors text = false) (line : Nat) :
    lineFaults b line text = [] := by
  unfold involvesActors at h
  unfold lineFaults
  split
  · rename_i s hs
    cases s with
    | leaf content =>
      rw [hs] at h
      exact Leaf.faults_of_not_involvesActors h line
    | _ => rfl
  · rfl

theorem parse_of_involvesActors {line : List Char} (h : involvesActors line = true) (hfeed : '\n' ∉ line) :
    (parse (String.ofList line)).isOk = true ∧ Text.lines (String.ofList line).toList = [line] := by
  unfold involvesActors at h
  split at h
  · rename_i content hread
    have hne : line ≠ [] := by
      rintro rfl
      have hnone : Statement.ofLine [] = .ok none := by cbv
      cases hnone.symm.trans hread
    have hlines : Text.lines (String.ofList line).toList = [line] := by
      rw [String.toList_ofList, Text.lines_of_lineFeed_not_mem hfeed hne]
    refine ⟨?_, hlines⟩
    unfold parse parseLines
    rw [hlines, readLines, Assembly.readLine, hread]
    cases content <;> rfl
  · contradiction

end Script

end Lenient

namespace Builder

/-- Builds the diagrams of scripts in which actors need no declaration. -/
def lenient : Builder BuiltinIcon := ⟨BuiltinIcon.set, false⟩

end Builder

namespace BuildError

theorem ofLine_ref {declared : List String} {line : Nat} {ref : ActorRef} :
    ∀ fault ∈ ref.faults .lenient declared line, fault.OfLine line := by
  cases ref with
  | named name => exact List.forall_mem_nil _
  | pseudo name =>
    rw [ActorRef.faults]
    split
    · exact List.forall_mem_nil _
    · exact List.forall_mem_singleton.mpr (.pseudoActor name)

theorem ofLine_attribute {line : Nat} {actor : String} {given : Attribute} :
    ∀ fault ∈ given.faults .lenient line actor, fault.OfLine line := by
  unfold Attribute.faults
  split
  · -- The icons at hand are found or not; looking for them does not fail otherwise.
    unfold Attribute.iconFaults
    simp only [Builder.lenient, BuiltinIcon.set]
    split_ifs
    · exact List.forall_mem_nil _
    · exact List.forall_mem_nil _
    · exact List.forall_mem_singleton.mpr (.iconNotFound actor given.value)
  · split
    · unfold Attribute.boxFaults
      split
      · exact List.forall_mem_nil _
      · exact List.forall_mem_singleton.mpr (.attributeValue actor given)
    · exact List.forall_mem_singleton.mpr (.unknownAttribute actor given.name)

theorem ofLine_leaf {declared : List String} {line : Nat} {content : Leaf} (h : content.Spoken) :
    ∀ fault ∈ content.faults .lenient declared line, fault.OfLine line := by
  cases content with
  | actor name given description => exact List.forall_mem_flatMap.mpr fun given _ => ofLine_attribute
  | action sender receiver arrow message => exact List.forall_mem_append.mpr ⟨ofLine_ref, ofLine_ref⟩
  | note actors alignment message =>
    rw [Leaf.faults, if_pos (h.counted rfl), List.nil_append]
    exact List.forall_mem_flatMap.mpr fun ref _ => ofLine_ref
  | _ => exact List.forall_mem_nil _

theorem ofLine_lineFaults {line : Nat} {text : List Char} :
    ∀ fault ∈ Script.lineFaults .lenient line text, fault.OfLine line := by
  unfold Script.lineFaults
  split
  · rename_i s hread
    cases s with
    | leaf content =>
      cases Statement.read_ofLine hread with
      | inl hsetting =>
        obtain ⟨setting, hs⟩ := Assembly.exists_setting hsetting
        obtain rfl := Statement.leaf.inj hs
        exact List.forall_mem_nil _
      | inr hreads => exact ofLine_leaf (hreads.2 rfl)
    | _ => exact List.forall_mem_nil _
  · exact List.forall_mem_nil _

end BuildError

namespace Diagram

theorem reports_load {text : String} (h : (Script.parse text).isOk = true) :
    Reports ((((Text.lines text.toList).zipIdx 1).flatMap fun l =>
      Script.lineFaults .lenient l.2 l.1).map LoadError.build) (load text) := by
  obtain ⟨nodes, hnodes⟩ := isOk_iff.mp h
  rw [← Script.faults_of_parse rfl hnodes, load, hnodes]
  exact (Builder.reports_build .lenient nodes).mapError LoadError.build

theorem reports_load_line {line : List Char} (h : Script.involvesActors line = true) (hfeed : '\n' ∉ line) :
    Reports ((Script.lineFaults .lenient 1 line).map LoadError.build) (load (String.ofList line)) := by
  obtain ⟨hparse, hlines⟩ := Script.parse_of_involvesActors h hfeed
  have hreports := reports_load hparse
  rw [hlines] at hreports
  simpa using hreports

theorem isOk_load_line {line : List Char} (h : Script.involvesActors line = true) (hfeed : '\n' ∉ line)
    (number : Nat) :
    (load (String.ofList line)).isOk = true ↔ Script.lineFaults .lenient number line = [] := by
  rw [(reports_load_line h hfeed).isOk_iff_nil, List.map_eq_nil_iff, ← Script.lineFaults_atLine 1 number line,
    List.map_eq_nil_iff]

/-- A script that can be read loads exactly if each of its lines about participants does as a script of its own.
If not, the first line that does not has the error, which names the place of that line in the script. -/
theorem load_judges_lines {text : String} (h : (Script.parse text).isOk = true) :
    ((load text).isOk = true ↔ ∀ line ∈ Text.lines text.toList, Script.involvesActors line = true →
        (load (String.ofList line)).isOk = true) ∧
      ∀ e, load text = .error e →
        ∃ before line after fault, Text.lines text.toList = before ++ line :: after ∧
          Script.involvesActors line = true ∧ load (String.ofList line) = .error (.build fault) ∧
          (∀ earlier ∈ before, Script.involvesActors earlier = true →
            (load (String.ofList earlier)).isOk = true) ∧
          fault.OfLine 1 ∧ e = .build (fault.atLine (before.length + 1)) := by
  have hreports := reports_load h
  have hfeed := Text.lineFeed_not_mem_lines text.toList
  constructor
  · rw [hreports.isOk_iff_nil, List.map_eq_nil_iff, List.flatMap_eq_nil_iff]
    constructor
    · intro hnone line hline hinvolves
      rw [← List.zipIdx_map_fst 1 (Text.lines text.toList)] at hline
      obtain ⟨⟨line, number⟩, hmem, rfl⟩ := List.mem_map.mp hline
      exact (isOk_load_line hinvolves (hfeed line (List.fst_mem_of_mem_zipIdx hmem)) number).mpr (hnone _ hmem)
    · rintro hloads ⟨line, number⟩ hmem
      have hline := List.fst_mem_of_mem_zipIdx hmem
      cases hinvolves : Script.involvesActors line with
      | false => exact Script.lineFaults_of_not_involvesActors hinvolves number
      | true => exact (isOk_load_line hinvolves (hfeed line hline) number).mp (hloads line hline hinvolves)
  · intro e he
    have hhead := (hreports.eq_error_iff e).mp he
    rw [List.head?_map, Option.map_eq_some_iff] at hhead
    obtain ⟨found, hfound, rfl⟩ := hhead
    obtain ⟨before, line, after, fault, hlines, hbefore, hfault, rfl⟩ := Script.first_fault hfound
    rw [hlines] at hfeed
    have hinvolves : Script.involvesActors line = true := by
      by_contra hnot
      rw [Script.lineFaults_of_not_involvesActors (Bool.eq_false_iff.mpr hnot)] at hfault
      contradiction
    have hline := reports_load_line hinvolves (hfeed line (by simp))
    refine ⟨before, line, after, fault, hlines, hinvolves, ?_, ?_, ?_, by rw [Nat.add_comm]⟩
    · rw [hline.eq_error_iff, List.head?_map, hfault, Option.map_some]
    · intro earlier hearlier hinvolves
      exact (isOk_load_line hinvolves (hfeed earlier (by simp [hearlier])) 1).mpr (hbefore earlier hearlier)
    · exact BuildError.ofLine_lineFaults fault (List.mem_of_head? hfault)

def faultySample : String :=
  "alt: x\na->b\n#!style rose\nparticipant a icon=ghost header=maybe\nend\n.top->b\n"

theorem load_judges_lines_faultySample :
    (Script.parse faultySample).isOk = true ∧
      load faultySample = .error (.build (.iconNotFound 4 "a" "ghost")) ∧
      ∃ before line after fault, Text.lines faultySample.toList = before ++ line :: after ∧
        Script.involvesActors line = true ∧ load (String.ofList line) = .error (.build fault) ∧
        (∀ earlier ∈ before, Script.involvesActors earlier = true →
          (load (String.ofList earlier)).isOk = true) ∧
        fault.OfLine 1 ∧ LoadError.build (.iconNotFound 4 "a" "ghost") =
          .build (fault.atLine (before.length + 1)) := by
  have hparse : (Script.parse faultySample).isOk = true := by decide +kernel
  have hload : load faultySample = .error (.build (.iconNotFound 4 "a" "ghost")) := by decide +kernel
  exact ⟨hparse, hload, (load_judges_lines hparse).2 _ hload⟩

end Diagram

end SequenceChart
