import SequenceChart.Proofs.Script.Assembly

/-! Replays: reading the statements of a shaped forest gives the forest back, whatever has been read before
and whatever lines the statements stand on. -/

namespace SequenceChart

namespace OpenBlock

def pushAll (b : OpenBlock) (nodes : List Node) : OpenBlock :=
  { b with current := { b.current with body := b.current.body ++ nodes } }

def branched (b : OpenBlock) (heading : Heading) (last : Bool) (body : List Node) : OpenBlock :=
  ⟨b.line, b.segments, ⟨heading, body⟩, last⟩

theorem branch_of_open {b : OpenBlock} (hkind : b.kind = .alt) (hopen : b.last = false) (heading : Heading)
    (last : Bool) : b.branch heading last = .ok (b.branched heading last []) := by
  unfold branch
  rw [if_neg (not_not_intro hkind), if_neg (Bool.not_eq_true _ ▸ hopen)]
  rfl

theorem segments_branched (b : OpenBlock) (heading : Heading) (last : Bool) (body : List Node) :
    (b.branched heading last body).segments = b.segments ++ [⟨heading, body⟩] := rfl

theorem kind_branched (b : OpenBlock) (heading : Heading) (last : Bool) (body : List Node) :
    (b.branched heading last body).kind = b.kind := by
  unfold kind branched segments
  cases b.earlier <;> rfl

end OpenBlock

namespace Assembly

open Node

def pushAll (a : Assembly) (nodes : List Node) : Assembly := nodes.foldl push a

theorem pushAll_opened (settings nodes : List Node) (b : OpenBlock) (outer : List OpenBlock)
    (added : List Node) :
    pushAll ⟨settings, nodes, b :: outer⟩ added = ⟨settings, nodes, b.pushAll added :: outer⟩ := by
  induction added generalizing b with
  | nil => simp only [pushAll, List.foldl_nil, OpenBlock.pushAll, List.append_nil]
  | cons node added ih =>
    have hpush : (b.push node).pushAll added = b.pushAll (node :: added) := by
      simp only [OpenBlock.push, OpenBlock.pushAll, List.append_assoc, List.singleton_append]
    rw [← hpush, ← ih (b.push node)]
    rfl

theorem pushAll_closed (settings nodes added : List Node) :
    pushAll ⟨settings, nodes, []⟩ added = ⟨settings, nodes ++ added, []⟩ := by
  induction added generalizing nodes with
  | nil => rw [List.append_nil]; rfl
  | cons node added ih =>
    rw [← List.singleton_append, ← List.append_assoc, ← ih (nodes ++ [node])]
    rfl

/-- Whether the forest comes back, but for its lines, from every reading of its statements. -/
def Replays (nodes : List Node) : Prop :=
  ∀ (a : Assembly) (read : List (Nat × Statement)), read.map Prod.snd = statements nodes →
    ∃ found, a.run read = .ok (a.pushAll found) ∧ found.map unnumbered = nodes.map unnumbered

theorem replays_nil : Replays [] := by
  intro a read hread
  obtain rfl := List.map_eq_nil_iff.mp hread
  exact ⟨[], rfl, rfl⟩

theorem replays_leaf {content : Leaf} (hsetting : content.isSetting = false) (line : Nat) {later : List Node}
    (hlater : Replays later) : Replays (.leaf line content :: later) := by
  intro a read hread
  obtain ⟨⟨number, _⟩, rest, rfl, rfl, hrest⟩ := List.map_eq_cons_iff.mp hread
  obtain ⟨found, hrun, hfound⟩ := hlater (a.push (.leaf number content)) rest hrest
  have hstep : a.step number (.leaf content) = .ok (a.push (.leaf number content)) := by
    cases content <;> first | rfl | contradiction
  refine ⟨.leaf number content :: found, ?_, ?_⟩
  · rw [run_cons, hstep]
    exact hrun
  · rw [List.map_cons, List.map_cons, hfound]
    rfl

theorem run_branch {b : OpenBlock} (hkind : b.kind = .alt) (hopen : b.last = false) {body : List Node}
    (hbody : Replays body) (settings nodes : List Node) (outer : List OpenBlock) (heading : Heading)
    (last : Bool) (line : Nat) {read : List (Nat × Statement)} (hread : read.map Prod.snd = statements body) :
    ∃ found, found.map unnumbered = body.map unnumbered ∧
      run ⟨settings, nodes, b :: outer⟩ ((line, .branch heading last) :: read) =
        .ok ⟨settings, nodes, b.branched heading last found :: outer⟩ := by
  obtain ⟨found, hrun, hfound⟩ := hbody ⟨settings, nodes, b.branched heading last [] :: outer⟩ read hread
  refine ⟨found, hfound, ?_⟩
  have hstep : step ⟨settings, nodes, b :: outer⟩ line (.branch heading last) =
      .ok ⟨settings, nodes, b.branched heading last [] :: outer⟩ :=
    map_eq_ok.mpr ⟨_, OpenBlock.branch_of_open hkind hopen heading last, rfl⟩
  rw [run_cons, hstep]
  rw [pushAll_opened] at hrun
  exact hrun

theorem run_branches {closed : Bool} {segments : List (Segment Node)}
    (hheadings : Heading.Branches closed (segments.map (·.heading)))
    (hbodies : ∀ s ∈ segments, Replays s.body) (settings nodes : List Node) {b : OpenBlock}
    (hkind : b.kind = .alt) (hopen : b.last = false) (outer : List OpenBlock) {read : List (Nat × Statement)}
    (hread : read.map Prod.snd = segmentStatements none segments) :
    ∃ after found, after.line = b.line ∧ after.segments = b.segments ++ found ∧
      found.map unnumberedSegment = segments.map unnumberedSegment ∧
      run ⟨settings, nodes, b :: outer⟩ read = .ok ⟨settings, nodes, after :: outer⟩ := by
  generalize hhs : segments.map (·.heading) = headings at hheadings
  induction hheadings generalizing segments b read with
  | nil =>
    obtain rfl := List.map_eq_nil_iff.mp hhs
    obtain rfl := List.map_eq_nil_iff.mp hread
    exact ⟨b, [], rfl, (List.append_nil _).symm, rfl, rfl⟩
  | elseAlt message _ ih =>
    obtain ⟨⟨heading, body⟩, later, rfl, rfl, hlater⟩ := List.map_eq_cons_iff.mp hhs
    have hall := List.forall_mem_cons.mp hbodies
    rw [segmentStatements_cons] at hread
    obtain ⟨⟨line, _⟩, rest, rfl, rfl, hrest⟩ := List.map_eq_cons_iff.mp hread
    obtain ⟨here, rest, rfl, hhere, hrest⟩ := List.map_eq_append_iff.mp hrest
    obtain ⟨nodes', hnodes, hrun⟩ :=
      run_branch hkind hopen hall.1 settings nodes outer (.elseAlt message) false line hhere
    obtain ⟨after, found, hline, hsegments, hfound, hrest⟩ := ih hall.2
      ((b.kind_branched (.elseAlt message) false nodes').trans hkind) rfl hrest hlater
    refine ⟨after, ⟨.elseAlt message, nodes'⟩ :: found, hline, ?_, ?_, ?_⟩
    · rw [hsegments, OpenBlock.segments_branched, List.append_assoc, List.singleton_append]
    · rw [List.map_cons, List.map_cons, hfound, unnumberedSegment, unnumberedSegment, hnodes]
    · rw [← List.cons_append, run_append]
      exact bind_eq_ok.mpr ⟨_, hrun, hrest⟩
  | otherwise message =>
    obtain ⟨⟨heading, body⟩, later, rfl, rfl, hlater⟩ := List.map_eq_cons_iff.mp hhs
    obtain rfl := List.map_eq_nil_iff.mp hlater
    rw [segmentStatements_cons, segmentStatements_nil, List.append_nil] at hread
    obtain ⟨⟨line, _⟩, rest, rfl, rfl, hrest⟩ := List.map_eq_cons_iff.mp hread
    obtain ⟨nodes', hnodes, hrun⟩ := run_branch hkind hopen (hbodies _ List.mem_cons_self) settings nodes outer
      (.otherwise message) true line hrest
    refine ⟨b.branched (.otherwise message) true nodes', [⟨.otherwise message, nodes'⟩], rfl, rfl, ?_, hrun⟩
    rw [List.map_cons, List.map_cons, unnumberedSegment, unnumberedSegment, hnodes]

theorem run_segments (line : Nat) {closed : Bool} {segments : List (Segment Node)}
    (hheadings : Heading.Sequence closed (segments.map (·.heading)))
    (hbodies : ∀ s ∈ segments, Replays s.body) (settings nodes : List Node) (outer : List OpenBlock)
    {read : List (Nat × Statement)} (hread : read.map Prod.snd = segmentStatements (some line) segments) :
    ∃ b, b.toNode.unnumbered = (block line segments).unnumbered ∧
      run ⟨settings, nodes, outer⟩ read = .ok ⟨settings, nodes, b :: outer⟩ := by
  generalize hhs : segments.map (·.heading) = headings at hheadings
  obtain ⟨first, later, rfl⟩ : ∃ first later, segments = first :: later := by
    cases hheadings <;> obtain ⟨first, later, rfl, _, _⟩ := List.map_eq_cons_iff.mp hhs <;>
      exact ⟨first, later, rfl⟩
  obtain ⟨heading, body⟩ := first
  have hall := List.forall_mem_cons.mp hbodies
  rw [segmentStatements_cons] at hread
  obtain ⟨⟨number, _⟩, rest, rfl, rfl, hbody⟩ := List.map_eq_cons_iff.mp hread
  obtain ⟨here, branches, rfl, hhere, hbranched⟩ := List.map_eq_append_iff.mp hbody
  obtain ⟨nodes', hrun, hnodes⟩ := hall.1 ⟨settings, nodes, .start number heading :: outer⟩ here hhere
  rw [pushAll_opened] at hrun
  let opened := (OpenBlock.start number heading).pushAll nodes'
  have hopened : run ⟨settings, nodes, outer⟩ ((number, .opening heading) :: here) =
      .ok ⟨settings, nodes, opened :: outer⟩ := hrun
  cases hheadings with
  | loop message =>
    obtain ⟨rfl, hlater⟩ := List.cons_eq_cons.mp hhs
    obtain rfl := List.map_eq_nil_iff.mp hlater
    obtain rfl := List.map_eq_nil_iff.mp hbranched
    refine ⟨opened, ?_, (List.append_nil here).symm ▸ hopened⟩
    rw [OpenBlock.toNode, unnumbered_block, unnumbered_block]
    exact congrArg (fun body => block 0 [⟨_, body⟩]) hnodes
  | alt message hbranches =>
    obtain ⟨rfl, rfl⟩ := List.cons_eq_cons.mp hhs
    obtain ⟨after, found, -, hsegments, hfound, hafter⟩ :=
      run_branches hbranches hall.2 settings nodes (b := opened) rfl rfl outer hbranched
    refine ⟨after, ?_, ?_⟩
    · rw [OpenBlock.toNode, unnumbered_block, unnumbered_block, hsegments, List.map_append, hfound]
      exact congrArg (fun body => block 0 (⟨_, body⟩ :: later.map unnumberedSegment)) hnodes
    · rw [← List.cons_append, run_append]
      exact bind_eq_ok.mpr ⟨_, hopened, hafter⟩

theorem replays_of_shaped {nodes : List Node} (h : ShapedAll nodes) : Replays nodes := by
  induction nodes using forest_induction with
  | nil => exact replays_nil
  | leaf line content later ih => exact replays_leaf h.1 line (ih h.2)
  | block line segments later ihbodies ih =>
    obtain ⟨⟨⟨closed, hheadings⟩, hsegments⟩, hlater⟩ := h
    intro a read hread
    rw [statements_block] at hread
    obtain ⟨before, rest, rfl, hbefore, hread⟩ := List.map_eq_append_iff.mp hread
    obtain ⟨⟨number, _⟩, rest, rfl, rfl, hrest⟩ := List.map_eq_cons_iff.mp hread
    obtain ⟨b, hb, hrun⟩ := run_segments line hheadings
      (fun s hs => ihbodies s hs (shapedSegments_iff.mp hsegments s hs)) a.settings a.nodes a.opened hbefore
    obtain ⟨found, hlast, hfound⟩ := ih hlater (a.push b.toNode) rest hrest
    refine ⟨b.toNode :: found, ?_, ?_⟩
    · rw [run_append, bind_eq_ok]
      refine ⟨_, hrun, ?_⟩
      rw [run_cons]
      exact hlast
    · rw [List.map_cons, List.map_cons, hb, hfound]

end Assembly

end SequenceChart
