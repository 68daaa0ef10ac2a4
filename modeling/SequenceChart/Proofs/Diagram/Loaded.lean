import SequenceChart.Proofs.Chart.Sites
import SequenceChart.Proofs.Diagram.References
import SequenceChart.Proofs.Script.Blocks

/-! Diagrams that were loaded from a script. Every block of a script has a segment, so no block of the diagram
is without. -/

namespace SequenceChart

theorem Heading.Sequence.ne_nil {closed : Bool} {headings : List Heading} (h : Sequence closed headings) :
    headings ≠ [] := by
  cases h <;> exact List.cons_ne_nil _ _

theorem Leaf.sites_item? {find : ActorRef → Participant} {content : Leaf} {item : Item}
    (h : content.item? find = some item) (row depth : Nat) : item.sites row depth = [] := by
  have hblock : ∀ segments, item ≠ .block segments := by
    rintro segments rfl
    unfold item? at h
    split at h <;> cases h
  rw [Item.sites]
  exact hblock

namespace Node

theorem filled_segments {find : ActorRef → Participant} {segments : List (Segment Node)}
    (hbodies : ∀ s ∈ segments, ∀ row depth, ∀ site ∈ Item.sitesAll row depth (itemsAll find s.body),
      site.segments ≠ []) (row depth : Nat) :
    ∀ site ∈ Item.sitesSegments row depth (itemsSegments find segments), site.segments ≠ [] := by
  induction segments generalizing row with
  | nil => exact nofun
  | cons s later ih =>
    obtain ⟨heading, body⟩ := s
    obtain ⟨hbody, hlater⟩ := List.forall_mem_cons.mp hbodies
    rw [itemsSegments, Item.sitesSegments]
    exact List.forall_mem_append.mpr ⟨hbody _ _, ih hlater _⟩

theorem filled_itemsAll (find : ActorRef → Participant) {nodes : List Node} (h : ShapedAll nodes) (row depth : Nat) :
    ∀ site ∈ Item.sitesAll row depth (itemsAll find nodes), site.segments ≠ [] := by
  induction nodes using forest_induction generalizing row depth with
  | nil => exact nofun
  | leaf line content later ih =>
    rw [itemsAll, item?]
    cases hitem : content.item? find with
    | none => exact ih h.2 row depth
    | some item =>
      rw [Option.toList_some, List.singleton_append, Item.sitesAll, Leaf.sites_item? hitem, List.nil_append]
      exact ih h.2 _ depth
  | block line segments later ihbodies ih =>
    obtain ⟨⟨⟨closed, hheadings⟩, hbodies⟩, hlater⟩ := h
    rw [shapedSegments_iff] at hbodies
    rw [itemsAll, item?, Option.toList_some, List.singleton_append, Item.sitesAll, Item.sites, List.cons_append]
    refine List.forall_mem_cons.mpr ⟨?_, List.forall_mem_append.mpr ⟨?_, ih hlater _ depth⟩⟩
    · dsimp only
      cases segments with
      | nil => exact absurd rfl hheadings.ne_nil
      | cons s segments =>
        rw [itemsSegments]
        exact List.cons_ne_nil _ _
    · exact filled_segments (fun s hs => ihbodies s hs (hbodies s hs)) row depth

theorem itemsAll_settings (find : ActorRef → Participant) {settings : List Node}
    (h : ∀ node ∈ settings, node.isSetting = true) (nodes : List Node) :
    itemsAll find (settings ++ nodes) = itemsAll find nodes := by
  induction settings with
  | nil => rfl
  | cons node settings ih =>
    obtain ⟨hnode, hsettings⟩ := List.forall_mem_cons.mp h
    obtain ⟨line, setting, rfl⟩ := exists_of_isSetting hnode
    rw [List.cons_append, itemsAll, ih hsettings]
    rfl

end Node

namespace Script

/-- The nodes of a script are its settings and shaped nodes, whose outline is all else that it says. -/
theorem shaped_of_parse {text : String} {nodes : List Node} (h : parse text = .ok nodes) :
    ∃ settings shaped, nodes = settings ++ shaped ∧ (∀ node ∈ settings, node.isSetting = true) ∧
      Node.ShapedAll shaped ∧ Node.outlineAll shaped = (blockStatements text).map fun s => s.2.mark s.1 := by
  obtain ⟨_, hread, _⟩ := bind_eq_ok.mp h
  obtain ⟨a, hrun, hopened, rfl⟩ := (parse_eq_ok (readable_of_readLines hread)).mp h
  obtain ⟨hshaped, houtline⟩ := shaped_of_run hrun hopened
  exact ⟨_, a.nodes, rfl, isSetting_settingNodes _, hshaped, houtline⟩

end Script

namespace Diagram

theorem sound_of_load {text : String} {d : Diagram BuiltinIcon} (h : load text = .ok d) : d.Sound := by
  unfold load at h
  split at h
  · contradiction
  · rename_i nodes hparse
    have hbuild : Builder.build ⟨BuiltinIcon.set, false⟩ nodes = .ok d := mapError_eq_ok.mp h
    obtain ⟨settings, shaped, rfl, hsettings, hshaped, _⟩ := Script.shaped_of_parse hparse
    refine ⟨ranked_of_build hbuild, ?_⟩
    unfold blocks
    rw [items_of_build hbuild, Node.itemsAll_settings _ hsettings]
    exact Node.filled_itemsAll _ hshaped 2 0

end Diagram

end SequenceChart
