import SequenceChart.Proofs.Script.Reading

/-! Lines under other numbers. Numbers only label what is read: with its lines numbered otherwise a script is read as
the same tree, or fails for the same fault, under the other numbers. -/

namespace SequenceChart

namespace Node

variable (f g : Nat → Nat)

mutual

def renumber : Node → Node
  | .leaf line content => .leaf (f line) content
  | .block line segments => .block (f line) (renumberSegments segments)

def renumberSegments : List (Segment Node) → List (Segment Node)
  | [] => []
  | ⟨heading, body⟩ :: later => ⟨heading, renumberAll body⟩ :: renumberSegments later

def renumberAll : List Node → List Node
  | [] => []
  | node :: later => node.renumber :: renumberAll later

end

def renumberSegment (s : Segment Node) : Segment Node := ⟨s.heading, s.body.map (renumber f)⟩

theorem renumberAll_eq_map (nodes : List Node) : renumberAll f nodes = nodes.map (renumber f) := by
  induction nodes with
  | nil => rfl
  | cons node later ih => rw [renumberAll, List.map_cons, ih]

theorem renumber_block (line : Nat) (segments : List (Segment Node)) :
    (block line segments).renumber f = block (f line) (segments.map (renumberSegment f)) := by
  rw [renumber]
  congr 1
  induction segments with
  | nil => rfl
  | cons s later ih => rw [renumberSegments, List.map_cons, ih, renumberSegment, renumberAll_eq_map]

theorem map_renumber_id (nodes : List Node) : nodes.map (renumber id) = nodes := by
  induction nodes using forest_induction with
  | nil => rfl
  | leaf line content later ih => rw [List.map_cons, ih, renumber, id]
  | block line segments later ihbodies ih =>
    have hsegments : segments.map (renumberSegment id) = segments := by
      refine Eq.trans (List.map_congr_left fun s hs => ?_) (List.map_id segments)
      exact congrArg (Segment.mk s.heading) (ihbodies s hs)
    rw [List.map_cons, ih, renumber_block, hsegments, id]

theorem map_renumber_map_renumber (nodes : List Node) :
    (nodes.map (renumber f)).map (renumber g) = nodes.map (renumber (g ∘ f)) := by
  induction nodes using forest_induction with
  | nil => rfl
  | leaf line content later ih =>
    rw [List.map_cons, List.map_cons, List.map_cons, ih]
    rfl
  | block line segments later ihbodies ih =>
    have hsegments : (segments.map (renumberSegment f)).map (renumberSegment g) =
        segments.map (renumberSegment (g ∘ f)) := by
      rw [List.map_map]
      refine List.map_congr_left fun s hs => ?_
      exact congrArg (Segment.mk s.heading) (ihbodies s hs)
    rw [List.map_cons, List.map_cons, List.map_cons, ih, renumber_block, renumber_block, renumber_block, hsegments]
    rfl

end Node

def OpenBlock.renumber (f : Nat → Nat) (b : OpenBlock) : OpenBlock :=
  ⟨f b.line, b.earlier.map (Node.renumberSegment f), Node.renumberSegment f b.current, b.last⟩

def Assembly.renumber (f : Nat → Nat) (a : Assembly) : Assembly :=
  ⟨a.settings.map (Node.renumber f), a.nodes.map (Node.renumber f), a.opened.map (OpenBlock.renumber f)⟩

def ScriptError.renumber (f : Nat → Nat) (e : ScriptError) : ScriptError := { e with line := f e.line }

namespace OpenBlock

variable (f : Nat → Nat) (b : OpenBlock)

theorem push_renumber (node : Node) : (b.renumber f).push (node.renumber f) = (b.push node).renumber f := by
  simp only [push, renumber, Node.renumberSegment, List.map_append, List.map_cons, List.map_nil]

theorem segments_renumber : (b.renumber f).segments = b.segments.map (Node.renumberSegment f) := by
  unfold segments renumber
  rw [List.map_append]
  rfl

theorem kind_renumber : (b.renumber f).kind = b.kind := by
  unfold kind renumber
  cases b.earlier <;> rfl

theorem branch_renumber (heading : Heading) (last : Bool) :
    (b.renumber f).branch heading last = (b.branch heading last).map (renumber f) := by
  unfold branch
  rw [kind_renumber]
  have hlast : (b.renumber f).last = b.last := rfl
  rw [hlast, segments_renumber]
  split
  · rfl
  · split <;> rfl

theorem toNode_renumber : (b.renumber f).toNode = b.toNode.renumber f := by
  unfold toNode
  rw [Node.renumber_block, segments_renumber]
  rfl

end OpenBlock

namespace Assembly

variable (f : Nat → Nat) (a : Assembly)

theorem push_renumber (node : Node) : (a.renumber f).push (node.renumber f) = (a.push node).renumber f := by
  obtain ⟨settings, nodes, opened⟩ := a
  cases opened with
  | nil => simp only [push, renumber, List.map_append, List.map_cons, List.map_nil]
  | cons b outer => simp only [push, renumber, List.map_cons, OpenBlock.push_renumber]

theorem step_renumber (line : Nat) (s : Statement) :
    (a.renumber f).step (f line) s = (a.step line s).map (renumber f) := by
  cases s with
  | leaf content =>
    cases content with
    | instruction setting =>
      simp only [step, renumber, Except.map, List.map_append, List.map_cons, List.map_nil, Node.renumber]
    | _ => exact congrArg Except.ok (push_renumber f a (.leaf line _))
  | opening heading => rfl
  | branch heading last =>
    obtain ⟨settings, nodes, opened⟩ := a
    cases opened with
    | nil => rfl
    | cons b outer =>
      simp only [step, renumber, List.map_cons, OpenBlock.branch_renumber]
      cases b.branch heading last <;> rfl
  | close =>
    obtain ⟨settings, nodes, opened⟩ := a
    cases opened with
    | nil => rfl
    | cons b outer =>
      have hpush := push_renumber f ⟨settings, nodes, outer⟩ b.toNode
      rw [← OpenBlock.toNode_renumber] at hpush
      exact congrArg Except.ok hpush

end Assembly

def renumbered {α : Type} (f : Nat → Nat) (relabel : α → α) : Except ScriptError α → Except ScriptError α
  | .ok value => .ok (relabel value)
  | .error e => .error (e.renumber f)

theorem renumbered_bind {α β : Type} {f : Nat → Nat} {first : α → α} {second : β → β}
    {outcome : Except ScriptError α} {next next' : α → Except ScriptError β}
    (h : ∀ value, next' (first value) = renumbered f second (next value)) :
    renumbered f first outcome >>= next' = renumbered f second (outcome >>= next) := by
  cases outcome with
  | error e => rfl
  | ok value => exact h value

theorem renumbered_renumbered {α : Type} (f g : Nat → Nat) (first second : α → α) (outcome : Except ScriptError α) :
    renumbered g second (renumbered f first outcome) = renumbered (g ∘ f) (second ∘ first) outcome := by
  cases outcome <;> rfl

namespace Assembly

variable (f : Nat → Nat) (a : Assembly)

theorem readLine_renumber (line : Nat) (text : List Char) :
    (a.renumber f).readLine (f line) text = renumbered f (renumber f) (a.readLine line text) := by
  unfold readLine
  cases Statement.ofLine text with
  | error fault => rfl
  | ok said =>
    cases said with
    | none => rfl
    | some s =>
      simp only [bind, Except.bind, step_renumber]
      cases a.step line s <;> rfl

theorem finish_renumber : (a.renumber f).finish = renumbered f (List.map (Node.renumber f)) a.finish := by
  obtain ⟨settings, nodes, opened⟩ := a
  cases opened with
  | nil => simp only [finish, renumber, renumbered, List.map_nil, List.map_append]
  | cons b outer => rfl

end Assembly

namespace Script

theorem renumbered_id (outcome : Except ScriptError (List Node)) :
    renumbered id (List.map (Node.renumber id)) outcome = outcome := by
  cases outcome with
  | error e => rfl
  | ok nodes => exact congrArg Except.ok (Node.map_renumber_id nodes)

theorem readLines_renumber (f : Nat → Nat) {line first : Nat} {lines : List (List Char)}
    (h : ∀ i < lines.length, f (line + i) = first + i) (a : Assembly) :
    readLines (a.renumber f) first lines = renumbered f (Assembly.renumber f) (readLines a line lines) := by
  induction lines generalizing line first a with
  | nil => rfl
  | cons text later ih =>
    have hhere : f line = first := h 0 (Nat.zero_lt_succ _)
    have hlater : ∀ i < later.length, f (line + 1 + i) = first + 1 + i := by
      intro i hi
      rw [Nat.add_assoc, Nat.add_assoc, Nat.add_comm 1 i]
      exact h (i + 1) (Nat.succ_lt_succ hi)
    rw [readLines_cons, readLines_cons, ← hhere, Assembly.readLine_renumber, hhere]
    cases a.readLine line text with
    | error e => rfl
    | ok middle => exact ih hlater middle

/-- The line of a script that its line `n` becomes when another line is inserted behind the first `count` ones. -/
def shifted (count n : Nat) : Nat := if n ≤ count then n else n + 1

theorem parseLines_insert {silent : List Char} (h : Statement.ofLine silent = .ok none)
    (before after : List (List Char)) :
    parseLines (before ++ silent :: after) =
      renumbered (shifted before.length) (List.map (Node.renumber (shifted before.length)))
        (parseLines (before ++ after)) := by
  have hbefore : readLines .empty 1 before =
      renumbered (shifted before.length) (Assembly.renumber (shifted before.length)) (readLines .empty 1 before) := by
    refine readLines_renumber _ (fun i hi => ?_) .empty
    unfold shifted
    rw [if_pos (by omega)]
  have hafter : ∀ i < after.length, shifted before.length (1 + before.length + i) = 1 + before.length + 1 + i := by
    intro i hi
    unfold shifted
    rw [if_neg (by omega)]
    omega
  have hread : readLines .empty 1 (before ++ silent :: after) =
      renumbered (shifted before.length) (Assembly.renumber (shifted before.length))
        (readLines .empty 1 (before ++ after)) := by
    rw [readLines_append, readLines_append]
    conv_lhs => rw [hbefore]
    refine renumbered_bind fun a => ?_
    rw [readLines_cons, Assembly.readLine_silent h]
    exact readLines_renumber _ hafter a
  unfold parseLines
  rw [hread]
  exact renumbered_bind (Assembly.finish_renumber _)

end Script

end SequenceChart
