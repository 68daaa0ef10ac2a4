import SequenceChart.Script.Parser

/-! Outlines: the statements that a forest of nodes is made of, in the order of the script. A tree keeps
the lines of its leaves and of the openings of its blocks, so only those carry a line in its outline. -/

namespace SequenceChart

theorem Segment.sizeOf_body_lt {ν : Type} [SizeOf ν] {s : Segment ν} {segments : List (Segment ν)}
    (h : s ∈ segments) : sizeOf s.body < sizeOf segments := by
  have hs := List.sizeOf_lt_of_mem h
  cases s with
  | mk heading body =>
    rw [Segment.mk.sizeOf_spec] at hs
    dsimp only
    omega

/-- A statement with the line that a tree keeps for it, if it keeps one. -/
abbrev Mark := Option Nat × Statement

def Statement.mark (line : Nat) : Statement → Mark
  | .leaf content => (some line, .leaf content)
  | .opening heading => (some line, .opening heading)
  | .branch heading last => (none, .branch heading last)
  | .close => (none, .close)

@[simp] theorem Statement.snd_mark (line : Nat) (s : Statement) : (s.mark line).2 = s := by
  cases s <;> rfl

namespace Heading

def alt (message : String) : Heading := ⟨.alt, "alt", message⟩

def elseAlt (message : String) : Heading := ⟨.otherwise, "else alt", message⟩

def otherwise (message : String) : Heading := ⟨.otherwise, "else", message⟩

def loop (message : String) : Heading := ⟨.loop, "loop", message⟩

/-- The headers after the first one of alternatives. A plain `else` may come last; it closes the block to
further segments. -/
inductive Branches : (closed : Bool) → List Heading → Prop
  | nil : Branches false []
  | elseAlt (message : String) {closed : Bool} {later : List Heading} :
      Branches closed later → Branches closed (.elseAlt message :: later)
  | otherwise (message : String) : Branches true [.otherwise message]

inductive Sequence : (closed : Bool) → List Heading → Prop
  | loop (message : String) : Sequence false [.loop message]
  | alt (message : String) {closed : Bool} {later : List Heading} :
      Branches closed later → Sequence closed (.alt message :: later)

theorem Branches.append {closed : Bool} {headings later : List Heading} (h : Branches false headings)
    (hlater : Branches closed later) : Branches closed (headings ++ later) := by
  generalize hopen : false = opened at h
  induction h with
  | nil => exact hlater
  | elseAlt message _ ih => exact .elseAlt message (ih hopen)
  | otherwise => contradiction

end Heading

def Leaf.isSetting : Leaf → Bool
  | .instruction _ => true
  | _ => false

def Statement.isSetting : Statement → Bool
  | .leaf content => content.isSetting
  | _ => false

namespace Node

def isSetting : Node → Bool
  | leaf _ content => content.isSetting
  | block _ _ => false

theorem exists_of_isSetting {node : Node} (h : node.isSetting = true) :
    ∃ line setting, node = .leaf line (.instruction setting) := by
  cases node with
  | leaf line content =>
    cases content with
    | instruction setting => exact ⟨line, setting, rfl⟩
    | _ => contradiction
  | block line segments => contradiction

def segmentMark : (opener : Option Nat) → Heading → Mark
  | some line, heading => (some line, .opening heading)
  | none, heading => (none, .branch heading (heading.label == "else"))

mutual

def outline : Node → List Mark
  | .leaf line content => [(some line, .leaf content)]
  | .block line segments => outlineSegments (some line) segments ++ [(none, .close)]

def outlineSegments (opener : Option Nat) : List (Segment Node) → List Mark
  | [] => []
  | ⟨heading, body⟩ :: later =>
    segmentMark opener heading :: (outlineAll body ++ outlineSegments none later)

def outlineAll : List Node → List Mark
  | [] => []
  | node :: later => node.outline ++ outlineAll later

end

mutual

def unnumbered : Node → Node
  | .leaf _ content => .leaf 0 content
  | .block _ segments => .block 0 (unnumberedSegments segments)

def unnumberedSegments : List (Segment Node) → List (Segment Node)
  | [] => []
  | ⟨heading, body⟩ :: later => ⟨heading, unnumberedAll body⟩ :: unnumberedSegments later

def unnumberedAll : List Node → List Node
  | [] => []
  | node :: later => node.unnumbered :: unnumberedAll later

end

mutual

/-- Whether all blocks have the segments that a script can give them, and no setting stands among the
nodes. -/
def Shaped : Node → Prop
  | .leaf _ content => content.isSetting = false
  | .block _ segments =>
    (∃ closed, Heading.Sequence closed (segments.map (·.heading))) ∧ ShapedSegments segments

def ShapedSegments : List (Segment Node) → Prop
  | [] => True
  | ⟨_, body⟩ :: later => ShapedAll body ∧ ShapedSegments later

def ShapedAll : List Node → Prop
  | [] => True
  | node :: later => node.Shaped ∧ ShapedAll later

end

/-- Induction on forests: a block adds what holds of the bodies of its segments. -/
@[elab_as_elim]
theorem forest_induction {P : List Node → Prop} (nil : P [])
    (leaf : ∀ line content later, P later → P (.leaf line content :: later))
    (block : ∀ line segments later, (∀ s ∈ segments, P s.body) → P later →
      P (.block line segments :: later)) : ∀ nodes, P nodes
  | [] => nil
  | .leaf line content :: later => leaf line content later (forest_induction nil leaf block later)
  | .block line segments :: later =>
    block line segments later (fun s _ => forest_induction nil leaf block s.body)
      (forest_induction nil leaf block later)
termination_by nodes => sizeOf nodes
decreasing_by
  all_goals simp only [List.cons.sizeOf_spec, Node.block.sizeOf_spec]
  · omega
  · have hbody := Segment.sizeOf_body_lt ‹s ∈ segments›
    omega
  · omega

theorem shapedSegments_iff {segments : List (Segment Node)} :
    ShapedSegments segments ↔ ∀ s ∈ segments, ShapedAll s.body := by
  induction segments with
  | nil => simp [ShapedSegments]
  | cons s later ih => simp [ShapedSegments, ih]

theorem shapedAll_append {nodes later : List Node} :
    ShapedAll (nodes ++ later) ↔ ShapedAll nodes ∧ ShapedAll later := by
  induction nodes with
  | nil => simp [ShapedAll]
  | cons node nodes ih => simp [ShapedAll, ih, and_assoc]

theorem outlineAll_append (nodes later : List Node) :
    outlineAll (nodes ++ later) = outlineAll nodes ++ outlineAll later := by
  induction nodes with
  | nil => rfl
  | cons node nodes ih => rw [List.cons_append, outlineAll, outlineAll, ih, List.append_assoc]

@[simp] theorem outlineAll_singleton (node : Node) : outlineAll [node] = node.outline := by
  rw [outlineAll, outlineAll, List.append_nil]

theorem unnumberedAll_eq_map (nodes : List Node) : unnumberedAll nodes = nodes.map unnumbered := by
  induction nodes with
  | nil => rfl
  | cons node nodes ih => rw [unnumberedAll, List.map_cons, ih]

def unnumberedSegment (s : Segment Node) : Segment Node := ⟨s.heading, s.body.map unnumbered⟩

theorem unnumbered_block (line : Nat) (segments : List (Segment Node)) :
    (block line segments).unnumbered = block 0 (segments.map unnumberedSegment) := by
  rw [unnumbered]
  congr 1
  induction segments with
  | nil => rfl
  | cons s later ih =>
    rw [unnumberedSegments, List.map_cons, ih, unnumberedSegment, unnumberedAll_eq_map]

theorem outlineSegments_append (opener : Option Nat) (segments : List (Segment Node)) (s : Segment Node)
    (later : List (Segment Node)) :
    outlineSegments opener (segments ++ s :: later) =
      outlineSegments opener segments ++
        outlineSegments (if segments = [] then opener else none) (s :: later) := by
  induction segments generalizing opener with
  | nil => rfl
  | cons first segments ih =>
    obtain ⟨heading, body⟩ := first
    rw [List.cons_append, outlineSegments, outlineSegments, ih none, ite_self, if_neg (List.cons_ne_nil _ _),
      List.cons_append, List.append_assoc]

end Node

end SequenceChart
