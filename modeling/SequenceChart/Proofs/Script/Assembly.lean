import SequenceChart.Proofs.Outcome
import SequenceChart.Proofs.Script.Grammar

/-! Assembly on a stack of open blocks. What has been read is at every step the outline of the finished
nodes and then of the open blocks, outermost first. -/

namespace SequenceChart

inductive Statement.Worded : Statement → Prop
  | leaf {content : Leaf} (setting : content.isSetting = false) : Worded (.leaf content)
  | alt (message : String) : Worded (.opening (.alt message))
  | loop (message : String) : Worded (.opening (.loop message))
  | elseAlt (message : String) : Worded (.branch (.elseAlt message) false)
  | otherwise (message : String) : Worded (.branch (.otherwise message) true)
  | close : Worded .close

theorem Statement.isSetting_of_worded {s : Statement} (h : s.Worded) : s.isSetting = false := by
  cases h with
  | leaf hsetting => exact hsetting
  | _ => rfl

namespace OpenBlock

open Node

def outline (b : OpenBlock) : List Mark := outlineSegments (some b.line) b.segments

/-- The block can still become a shaped one, and knows whether it may have further segments. -/
structure Sound (b : OpenBlock) : Prop where
  headings : Heading.Sequence b.last (b.segments.map (·.heading))
  bodies : ShapedSegments b.segments

theorem segments_push (b : OpenBlock) (node : Node) :
    (b.push node).segments = b.earlier ++ [⟨b.current.heading, b.current.body ++ [node]⟩] := rfl

theorem outline_push (b : OpenBlock) (node : Node) : (b.push node).outline = b.outline ++ node.outline := by
  unfold outline
  rw [segments_push, segments, outlineSegments_append, outlineSegments_append]
  simp only [OpenBlock.push, outlineSegments, outlineAll_append, outlineAll_singleton, List.append_nil,
    List.append_assoc, List.cons_append]

theorem sound_push {b : OpenBlock} (h : b.Sound) {node : Node} (hnode : node.Shaped) : (b.push node).Sound := by
  obtain ⟨hheadings, hbodies⟩ := h
  constructor
  · rw [segments, List.map_append] at hheadings
    rw [segments_push, List.map_append]
    exact hheadings
  · rw [shapedSegments_iff] at hbodies ⊢
    intro s hs
    rw [segments_push, List.mem_append, List.mem_singleton] at hs
    cases hs with
    | inl hs => exact hbodies s (List.mem_append_left _ hs)
    | inr hs =>
      subst hs
      have hcurrent := hbodies b.current (List.mem_append_right _ (List.mem_singleton_self _))
      exact shapedAll_append.mpr ⟨hcurrent, hnode, trivial⟩

theorem sound_start {heading : Heading} (line : Nat) (h : (Statement.opening heading).Worded) :
    (start line heading).Sound := by
  refine ⟨?_, trivial, trivial⟩
  cases h with
  | alt message => exact .alt message .nil
  | loop message => exact .loop message

/-- A block is branched only while it is one of alternatives that no plain `else` has closed. -/
theorem branch_eq_ok {b after : OpenBlock} {heading : Heading} {last : Bool}
    (h : b.branch heading last = .ok after) :
    b.kind = .alt ∧ b.last = false ∧ after.line = b.line ∧ after.last = last ∧
      after.segments = b.segments ++ [⟨heading, []⟩] := by
  unfold branch at h
  split at h
  · contradiction
  · split at h
    · contradiction
    · obtain rfl := Except.ok.inj h
      exact ⟨Decidable.not_not.mp ‹_›, Bool.not_eq_true _ ▸ ‹_›, rfl, rfl, rfl⟩

theorem outline_branch {b after : OpenBlock} {heading : Heading} {last : Bool} (line : Nat)
    (hworded : (Statement.branch heading last).Worded) (h : b.branch heading last = .ok after) :
    after.outline = b.outline ++ [(Statement.branch heading last).mark line] := by
  obtain ⟨_, _, hline, _, hafter⟩ := branch_eq_ok h
  have hmark : segmentMark none heading = (Statement.branch heading last).mark line := by
    cases hworded <;> rfl
  have hsegments : b.segments ≠ [] := List.append_ne_nil_of_right_ne_nil _ (List.cons_ne_nil _ _)
  unfold outline
  rw [hafter, hline, outlineSegments_append, if_neg hsegments, ← hmark]
  rfl

theorem sound_branch {b after : OpenBlock} (hb : b.Sound) {heading : Heading} {last : Bool}
    (hworded : (Statement.branch heading last).Worded) (h : b.branch heading last = .ok after) :
    after.Sound := by
  obtain ⟨hkind, hopen, _, hlast, hafter⟩ := branch_eq_ok h
  obtain ⟨hheadings, hbodies⟩ := hb
  have hbranch : Heading.Branches last [heading] := by
    cases hworded with
    | elseAlt message => exact .elseAlt message .nil
    | otherwise message => exact .otherwise message
  constructor
  · have hhead : (b.segments.map (·.heading)).head? = some (b.earlier.headD b.current).heading := by
      unfold segments
      cases b.earlier <;> rfl
    generalize hhs : b.segments.map (·.heading) = headings at hheadings hhead
    rw [hopen] at hheadings
    cases hheadings with
    | loop message =>
      -- A loop has no branches, so its kind would have stopped the step.
      rw [List.head?_cons, Option.some_inj] at hhead
      rw [kind, ← hhead] at hkind
      contradiction
    | alt message hbranches =>
      rw [hafter, hlast, List.map_append, hhs]
      exact .alt message (hbranches.append hbranch)
  · rw [shapedSegments_iff] at hbodies ⊢
    intro s hs
    rw [hafter, List.mem_append, List.mem_singleton] at hs
    cases hs with
    | inl hs => exact hbodies s hs
    | inr hs => exact hs ▸ trivial

theorem outline_toNode (b : OpenBlock) : b.toNode.outline = b.outline ++ [(none, .close)] := rfl

theorem shaped_toNode {b : OpenBlock} (h : b.Sound) : b.toNode.Shaped := ⟨⟨b.last, h.headings⟩, h.bodies⟩

end OpenBlock

namespace Assembly

open Node

def run (a : Assembly) (statements : List (Nat × Statement)) : Except ScriptFault Assembly :=
  statements.foldlM (fun a s => a.step s.1 s.2) a

theorem run_nil (a : Assembly) : a.run [] = .ok a := rfl

theorem run_cons (a : Assembly) (line : Nat) (s : Statement) (later : List (Nat × Statement)) :
    a.run ((line, s) :: later) = a.step line s >>= (run · later) :=
  List.foldlM_cons

theorem run_append (a : Assembly) (statements later : List (Nat × Statement)) :
    a.run (statements ++ later) = a.run statements >>= (run · later) :=
  List.foldlM_append

def outline (a : Assembly) : List Mark :=
  outlineAll a.nodes ++ a.opened.reverse.flatMap OpenBlock.outline

structure Sound (a : Assembly) : Prop where
  nodes : ShapedAll a.nodes
  opened : ∀ b ∈ a.opened, b.Sound

theorem sound_empty : empty.Sound := ⟨trivial, nofun⟩

theorem outline_push (a : Assembly) (node : Node) : (a.push node).outline = a.outline ++ node.outline := by
  obtain ⟨settings, nodes, opened⟩ := a
  cases opened with
  | nil => simp only [push, outline, outlineAll_append, outlineAll_singleton, List.reverse_nil,
      List.flatMap_nil, List.append_nil]
  | cons b outer => simp only [push, outline, List.reverse_cons, List.flatMap_append, List.flatMap_cons,
      List.flatMap_nil, List.append_nil, OpenBlock.outline_push, List.append_assoc]

theorem sound_push {a : Assembly} (h : a.Sound) {node : Node} (hnode : node.Shaped) : (a.push node).Sound := by
  obtain ⟨settings, nodes, opened⟩ := a
  cases opened with
  | nil => exact ⟨shapedAll_append.mpr ⟨h.nodes, hnode, trivial⟩, nofun⟩
  | cons b outer =>
    have hall := List.forall_mem_cons.mp h.opened
    exact ⟨h.nodes, List.forall_mem_cons.mpr ⟨OpenBlock.sound_push hall.1 hnode, hall.2⟩⟩

theorem step_sound {a after : Assembly} (ha : a.Sound) {line : Nat} {s : Statement} (hs : s.Worded)
    (h : a.step line s = .ok after) : after.Sound ∧ after.outline = a.outline ++ [s.mark line] := by
  cases s with
  | leaf content =>
    have hsetting : content.isSetting = false := by cases hs; assumption
    have hstep : a.step line (.leaf content) = .ok (a.push (.leaf line content)) := by
      cases content <;> first | rfl | contradiction
    rw [hstep, Except.ok.injEq] at h
    subst h
    exact ⟨sound_push ha hsetting, outline_push a _⟩
  | opening heading =>
    obtain rfl := Except.ok.inj h
    refine ⟨⟨ha.nodes, List.forall_mem_cons.mpr ⟨OpenBlock.sound_start line hs, ha.opened⟩⟩, ?_⟩
    simp only [outline, List.reverse_cons, List.flatMap_append, List.flatMap_cons, List.flatMap_nil,
      List.append_nil, List.append_assoc]
    rfl
  | branch heading last =>
    obtain ⟨settings, nodes, opened⟩ := a
    cases opened with
    | nil => contradiction
    | cons b outer =>
      obtain ⟨branched, hbranched, rfl⟩ := map_eq_ok.mp h
      have hall := List.forall_mem_cons.mp ha.opened
      refine ⟨⟨ha.nodes, List.forall_mem_cons.mpr
        ⟨OpenBlock.sound_branch hall.1 hs hbranched, hall.2⟩⟩, ?_⟩
      simp only [outline, List.reverse_cons, List.flatMap_append, List.flatMap_cons, List.flatMap_nil,
        List.append_nil, List.append_assoc, OpenBlock.outline_branch line hs hbranched]
  | close =>
    obtain ⟨settings, nodes, opened⟩ := a
    cases opened with
    | nil => contradiction
    | cons b outer =>
      obtain rfl := Except.ok.inj h
      have hall := List.forall_mem_cons.mp ha.opened
      have houter : Sound ⟨settings, nodes, outer⟩ := ⟨ha.nodes, hall.2⟩
      refine ⟨sound_push houter (OpenBlock.shaped_toNode hall.1), ?_⟩
      rw [outline_push, OpenBlock.outline_toNode]
      simp only [outline, List.reverse_cons, List.flatMap_append, List.flatMap_cons, List.flatMap_nil,
        List.append_nil, List.append_assoc]
      rfl

/-- A run adds its statements, each one once and in order. -/
theorem run_sound {statements : List (Nat × Statement)} (hs : ∀ s ∈ statements, s.2.Worded)
    {a after : Assembly} (ha : a.Sound) (h : a.run statements = .ok after) :
    after.Sound ∧ after.outline = a.outline ++ statements.map fun s => s.2.mark s.1 := by
  induction statements generalizing a with
  | nil =>
    obtain rfl := Except.ok.inj h
    exact ⟨ha, (List.append_nil _).symm⟩
  | cons s later ih =>
    obtain ⟨line, s⟩ := s
    have hall := List.forall_mem_cons.mp hs
    rw [run_cons, bind_eq_ok] at h
    obtain ⟨middle, hstep, hrun⟩ := h
    obtain ⟨hmiddle, houtline⟩ := step_sound ha hall.1 hstep
    obtain ⟨hafter, hlater⟩ := ih hall.2 hmiddle hrun
    refine ⟨hafter, ?_⟩
    rw [hlater, houtline, List.append_assoc]
    rfl

end Assembly

end SequenceChart
