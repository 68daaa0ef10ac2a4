import SequenceChart.Proofs.Script.Outline

/-! The grammar of blocks, read off the statements of a script alone. Its words are the outlines of shaped
forests. -/

namespace SequenceChart

namespace Script

mutual

inductive Items : List Statement → Prop
  | nil : Items []
  | leaf {content : Leaf} {later : List Statement} (setting : content.isSetting = false) :
      Items later → Items (.leaf content :: later)
  | block {block later : List Statement} : Block block → Items later → Items (block ++ later)

inductive Block : List Statement → Prop
  | alt (message : String) {items branches : List Statement} :
      Items items → Branches branches → Block (.opening (.alt message) :: (items ++ branches))
  | loop (message : String) {items : List Statement} :
      Items items → Block (.opening (.loop message) :: (items ++ [.close]))

/-- What follows the first segment of alternatives, down to the end of the block. -/
inductive Branches : List Statement → Prop
  | close : Branches [.close]
  | elseAlt (message : String) {items branches : List Statement} :
      Items items → Branches branches → Branches (.branch (.elseAlt message) false :: (items ++ branches))
  | otherwise (message : String) {items : List Statement} :
      Items items → Branches (.branch (.otherwise message) true :: (items ++ [.close]))

end

end Script

namespace Node

open Script

def statements (nodes : List Node) : List Statement := (outlineAll nodes).map Prod.snd

theorem statements_leaf (line : Nat) (content : Leaf) (later : List Node) :
    statements (.leaf line content :: later) = .leaf content :: statements later := rfl

def segmentStatements (opener : Option Nat) (segments : List (Segment Node)) : List Statement :=
  (outlineSegments opener segments).map Prod.snd

@[simp] theorem segmentStatements_nil (opener : Option Nat) : segmentStatements opener [] = [] := rfl

theorem segmentStatements_cons (opener : Option Nat) (s : Segment Node) (later : List (Segment Node)) :
    segmentStatements opener (s :: later) =
      (segmentMark opener s.heading).2 :: (statements s.body ++ segmentStatements none later) := by
  simp only [segmentStatements, statements, outlineSegments, List.map_cons, List.map_append]

theorem statements_block (line : Nat) (segments : List (Segment Node)) (later : List Node) :
    statements (.block line segments :: later) =
      segmentStatements (some line) segments ++ .close :: statements later := by
  simp only [statements, segmentStatements, outlineAll, outline, List.map_append, List.append_assoc,
    List.map_cons, List.cons_append, List.nil_append]

theorem branches_of_headings {closed : Bool} {segments : List (Segment Node)}
    (hheadings : Heading.Branches closed (segments.map (·.heading)))
    (hbodies : ∀ s ∈ segments, Items (statements s.body)) :
    Branches (segmentStatements none segments ++ [.close]) := by
  generalize hhs : segments.map (·.heading) = headings at hheadings
  induction hheadings generalizing segments with
  | nil =>
    obtain rfl := List.map_eq_nil_iff.mp hhs
    exact .close
  | elseAlt message _ ih =>
    obtain ⟨s, later, rfl, hs, hlater⟩ := List.map_eq_cons_iff.mp hhs
    have hrest := ih (fun t ht => hbodies t (List.mem_cons_of_mem _ ht)) hlater
    rw [segmentStatements_cons, hs, List.cons_append, List.append_assoc]
    exact .elseAlt message (hbodies s List.mem_cons_self) hrest
  | otherwise message =>
    obtain ⟨s, later, rfl, hs, hlater⟩ := List.map_eq_cons_iff.mp hhs
    obtain rfl := List.map_eq_nil_iff.mp hlater
    rw [segmentStatements_cons, hs, segmentStatements_nil, List.append_nil]
    exact .otherwise message (hbodies s List.mem_cons_self)

theorem block_of_headings (line : Nat) {closed : Bool} {segments : List (Segment Node)}
    (hheadings : Heading.Sequence closed (segments.map (·.heading)))
    (hbodies : ∀ s ∈ segments, Items (statements s.body)) :
    Block (segmentStatements (some line) segments ++ [.close]) := by
  generalize hhs : segments.map (·.heading) = headings at hheadings
  cases hheadings with
  | loop message =>
    obtain ⟨s, later, rfl, hs, hlater⟩ := List.map_eq_cons_iff.mp hhs
    obtain rfl := List.map_eq_nil_iff.mp hlater
    rw [segmentStatements_cons, hs, segmentStatements_nil, List.append_nil]
    exact .loop message (hbodies s List.mem_cons_self)
  | alt message hbranches =>
    obtain ⟨s, later, rfl, hs, rfl⟩ := List.map_eq_cons_iff.mp hhs
    have hrest := branches_of_headings hbranches fun t ht => hbodies t (List.mem_cons_of_mem _ ht)
    rw [segmentStatements_cons, hs, List.cons_append, List.append_assoc]
    exact .alt message (hbodies s List.mem_cons_self) hrest

/-- Every shaped forest is a word of the grammar. -/
theorem items_statements {nodes : List Node} (h : ShapedAll nodes) : Items (statements nodes) := by
  induction nodes using forest_induction with
  | nil => exact .nil
  | leaf line content later ih =>
    rw [statements_leaf]
    exact .leaf h.1 (ih h.2)
  | block line segments later ihbodies ih =>
    obtain ⟨⟨⟨closed, hheadings⟩, hsegments⟩, hlater⟩ := h
    have hblock := block_of_headings line hheadings fun s hs =>
      ihbodies s hs (shapedSegments_iff.mp hsegments s hs)
    have hitems := Items.block hblock (ih hlater)
    rw [List.append_assoc] at hitems
    rwa [statements_block]

/-- Segments that a block of the grammar, or what follows its first segment, is made of. -/
structure Drawn (line : Option Nat) (word : List Statement) (segments : List (Segment Node)) : Prop where
  shaped : ShapedSegments segments
  statements : segmentStatements line segments ++ [.close] = word

mutual

theorem exists_statements : ∀ {word : List Statement}, Items word →
    ∃ nodes, ShapedAll nodes ∧ statements nodes = word
  | _, .nil => ⟨[], trivial, rfl⟩
  | _, @Items.leaf content _ setting later => by
    obtain ⟨nodes, hshaped, hnodes⟩ := exists_statements later
    exact ⟨.leaf 0 content :: nodes, ⟨setting, hshaped⟩, by rw [statements_leaf, hnodes]⟩
  | _, .block hblock later => by
    obtain ⟨segments, closed, hheadings, hdrawn⟩ := exists_block hblock
    obtain ⟨nodes, hshaped, hnodes⟩ := exists_statements later
    refine ⟨.block 0 segments :: nodes, ⟨⟨⟨closed, hheadings⟩, hdrawn.shaped⟩, hshaped⟩, ?_⟩
    rw [statements_block, hnodes, ← hdrawn.statements, List.append_assoc]
    rfl

theorem exists_block : ∀ {word : List Statement}, Block word →
    ∃ segments closed, Heading.Sequence closed (segments.map (·.heading)) ∧ Drawn (some 0) word segments
  | _, .alt message items branches => by
    obtain ⟨nodes, hshaped, hnodes⟩ := exists_statements items
    obtain ⟨segments, closed, hheadings, hdrawn⟩ := exists_branches branches
    refine ⟨⟨.alt message, nodes⟩ :: segments, closed, .alt message hheadings, ⟨hshaped, hdrawn.shaped⟩, ?_⟩
    rw [segmentStatements_cons, hnodes, ← hdrawn.statements, List.cons_append, List.append_assoc]
    rfl
  | _, .loop message items => by
    obtain ⟨nodes, hshaped, hnodes⟩ := exists_statements items
    refine ⟨[⟨.loop message, nodes⟩], false, .loop message, ⟨hshaped, trivial⟩, ?_⟩
    rw [segmentStatements_cons, hnodes, segmentStatements_nil, List.append_nil]
    rfl

theorem exists_branches : ∀ {word : List Statement}, Branches word →
    ∃ segments closed, Heading.Branches closed (segments.map (·.heading)) ∧ Drawn none word segments
  | _, .close => ⟨[], false, .nil, trivial, rfl⟩
  | _, .elseAlt message items branches => by
    obtain ⟨nodes, hshaped, hnodes⟩ := exists_statements items
    obtain ⟨segments, closed, hheadings, hdrawn⟩ := exists_branches branches
    refine ⟨⟨.elseAlt message, nodes⟩ :: segments, closed, .elseAlt message hheadings,
      ⟨hshaped, hdrawn.shaped⟩, ?_⟩
    rw [segmentStatements_cons, hnodes, ← hdrawn.statements, List.cons_append, List.append_assoc]
    rfl
  | _, .otherwise message items => by
    obtain ⟨nodes, hshaped, hnodes⟩ := exists_statements items
    refine ⟨[⟨.otherwise message, nodes⟩], true, .otherwise message, ⟨hshaped, trivial⟩, ?_⟩
    rw [segmentStatements_cons, hnodes, segmentStatements_nil, List.append_nil]
    rfl

end

end Node

end SequenceChart
