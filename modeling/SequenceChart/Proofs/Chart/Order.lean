import SequenceChart.Proofs.Chart.Room
import SequenceChart.Proofs.Diagram.References

/-! The order of placement. A walk through a diagram meets its blocks, outer ones before those inside of them;
what the walk has passed when it meets a block settles where the frame goes. -/

namespace SequenceChart

/-- A block where a walk through a diagram meets it: the blocks around it, outermost first, and the entries
before it. -/
structure BlockScope where
  outer : List (List (Segment Item))
  before : List Entry
  segments : List (Segment Item)

namespace Item

mutual

def scopes (outer : List (List (Segment Item))) (before : List Entry) : Item → List BlockScope
  | .block segments => ⟨outer, before, segments⟩ :: scopesSegments (outer ++ [segments]) before segments
  | _ => []

def scopesSegments (outer : List (List (Segment Item))) (before : List Entry) :
    List (Segment Item) → List BlockScope
  | [] => []
  | ⟨heading, body⟩ :: later =>
    scopesAll outer (before ++ [.header heading]) body ++
      scopesSegments outer (before ++ .header heading :: entriesAll body) later

def scopesAll (outer : List (List (Segment Item))) (before : List Entry) : List Item → List BlockScope
  | [] => []
  | item :: later => item.scopes outer before ++ scopesAll outer (before ++ item.entries) later

end

/-- Blocks from the outermost on, each in a segment of the one before it, and the first among these items. -/
def Nested : List Item → List (List (Segment Item)) → Prop
  | _, [] => True
  | items, segments :: inner => .block segments ∈ items ∧ (inner = [] ∨ ∃ s ∈ segments, Nested s.body inner)

theorem Nested.cons {items : List Item} {blocks : List (List (Segment Item))} (h : Nested items blocks) (item : Item) :
    Nested (item :: items) blocks := by
  cases blocks with
  | nil => trivial
  | cons segments inner => exact ⟨List.mem_cons_of_mem item h.1, h.2⟩

def Holds (outer : List (List (Segment Item))) (items : List Item) (scope : BlockScope) : Prop :=
  ∃ more, scope.outer = outer ++ more ∧ Nested items (more ++ [scope.segments])

theorem Holds.cons {outer : List (List (Segment Item))} {items : List Item} {scope : BlockScope}
    (h : Holds outer items scope) (item : Item) : Holds outer (item :: items) scope := by
  obtain ⟨more, houter, hnested⟩ := h
  exact ⟨more, houter, hnested.cons item⟩

theorem holds_scopesSegments {segments : List (Segment Item)}
    (hbodies : ∀ s ∈ segments, ∀ outer before, ∀ scope ∈ scopesAll outer before s.body, Holds outer s.body scope)
    (outer : List (List (Segment Item))) (before : List Entry) :
    ∀ scope ∈ scopesSegments outer before segments, ∃ s ∈ segments, Holds outer s.body scope := by
  induction segments generalizing before with
  | nil => exact nofun
  | cons s later ih =>
    obtain ⟨heading, body⟩ := s
    obtain ⟨hbody, hlater⟩ := List.forall_mem_cons.mp hbodies
    rw [scopesSegments, List.forall_mem_append]
    constructor
    · exact fun scope hscope => ⟨_, List.mem_cons_self, hbody _ _ scope hscope⟩
    · intro scope hscope
      obtain ⟨s, hs, hholds⟩ := ih hlater _ scope hscope
      exact ⟨s, List.mem_cons_of_mem _ hs, hholds⟩

/-- The blocks around a block hold one another, and the innermost of them holds it. -/
theorem holds_scopesAll (items : List Item) (outer : List (List (Segment Item))) (before : List Entry) :
    ∀ scope ∈ scopesAll outer before items, Holds outer items scope := by
  induction items using forest_induction generalizing outer before with
  | nil => exact nofun
  | action a later ih => exact fun scope hscope => (ih outer (before ++ [.action a]) scope hscope).cons _
  | note n later ih => exact fun scope hscope => (ih outer (before ++ [.note n]) scope hscope).cons _
  | divider d later ih => exact fun scope hscope => (ih outer (before ++ [.divider d]) scope hscope).cons _
  | block segments later ihbodies ih =>
    rw [scopesAll, scopes, List.cons_append, List.forall_mem_cons, List.forall_mem_append]
    refine ⟨⟨[], (List.append_nil outer).symm, List.mem_cons_self, .inl rfl⟩, ?_, ?_⟩
    · intro scope hscope
      obtain ⟨s, hs, more, houter, hnested⟩ := holds_scopesSegments ihbodies (outer ++ [segments]) before scope hscope
      refine ⟨segments :: more, ?_, List.mem_cons_self, .inr ⟨s, hs, hnested⟩⟩
      rw [houter, List.append_assoc, List.singleton_append]
    · exact fun scope hscope => (ih outer (before ++ entriesSegments segments) scope hscope).cons _

end Item

namespace BlockScope

def row (s : BlockScope) : Nat := 2 + s.before.length

/-- The last row of the block, which is the one above its first row if the block has no entries. -/
def lastRow (s : BlockScope) : Nat := s.row + (Item.entriesSegments s.segments).length - 1

/-- The headings of the segments, each on the row after the entries of the segments before it. -/
def headings (s : BlockScope) : List (Nat × Heading) :=
  s.segments.zipIdx.map fun (segment, i) =>
    (s.row + (Item.entriesSegments (s.segments.take i)).length, segment.heading)

def site (s : BlockScope) : BlockSite := ⟨s.row, s.outer.length, s.segments⟩

end BlockScope

namespace Item

theorem sites_scopesSegments {segments : List (Segment Item)}
    (hbodies : ∀ s ∈ segments, ∀ outer before, (scopesAll outer before s.body).map BlockScope.site =
      sitesAll (2 + before.length) outer.length s.body)
    {outer : List (List (Segment Item))} {depth : Nat} (hdepth : outer.length = depth + 1) (before : List Entry) :
    (scopesSegments outer before segments).map BlockScope.site =
      sitesSegments (2 + before.length) depth segments := by
  induction segments generalizing before with
  | nil => rfl
  | cons s later ih =>
    obtain ⟨heading, body⟩ := s
    obtain ⟨hbody, hlater⟩ := List.forall_mem_cons.mp hbodies
    -- The block is around its segments as well, so what is in them lies one deeper than the block.
    have hheader : 2 + (before ++ [Entry.header heading]).length = 2 + before.length + 1 := by
      rw [List.length_append]
      rfl
    have hrest : 2 + (before ++ .header heading :: entriesAll body).length = 2 + before.length + 1 + rowsAll body := by
      rw [List.length_append, List.length_cons, length_entriesAll]
      omega
    rw [scopesSegments, sitesSegments, List.map_append, hbody, ih hlater, hdepth, hheader, hrest]

theorem sites_scopesAll (items : List Item) (outer : List (List (Segment Item))) (before : List Entry) :
    (scopesAll outer before items).map BlockScope.site = sitesAll (2 + before.length) outer.length items := by
  induction items using forest_induction generalizing outer before with
  | nil => rfl
  | action a later ih =>
    exact (ih outer (before ++ [.action a])).trans (by rw [List.length_append])
  | note n later ih =>
    exact (ih outer (before ++ [.note n])).trans (by rw [List.length_append])
  | divider d later ih =>
    exact (ih outer (before ++ [.divider d])).trans (by rw [List.length_append])
  | block segments later ihbodies ih =>
    have hinner : (outer ++ [segments]).length = outer.length + 1 := List.length_append
    rw [scopesAll, scopes, sitesAll, sites, List.map_append, List.map_cons, ih,
      sites_scopesSegments ihbodies hinner, List.length_append, entries, length_entriesSegments, ← Nat.add_assoc]
    rfl

end Item

namespace Layout

variable {ι α : Type} [Length α]

end Layout

namespace Diagram

variable {ι α : Type} [Length α]

/-- The blocks of a diagram in the order in which a walk meets them. -/
def scopes (d : Diagram ι) : List BlockScope := Item.scopesAll [] [] d.items

theorem blocks_eq (d : Diagram ι) : d.blocks = d.scopes.map BlockScope.site :=
  (Item.sites_scopesAll d.items [] []).symm

end Diagram

end SequenceChart
