import SequenceChart.Proofs.Chart.Order
import SequenceChart.Proofs.Diagram.Loaded

/-! Frames that end together. How many frames end with a block is counted along the last items alone, while the last
rows of frames follow from all rows above them; both agree for the block and all that is in it. -/

namespace SequenceChart

namespace Item

variable {segments : List (Segment Item)} {items : List Item}

theorem exists_site_of_mem (h : .block segments ∈ items) (row depth : Nat) :
    ∃ start, ⟨start, depth, segments⟩ ∈ sitesAll row depth items ∧
      sitesSegments start depth segments ⊆ sitesAll row depth items := by
  induction items generalizing row with
  | nil => contradiction
  | cons item later ih =>
    rw [sitesAll]
    cases List.mem_cons.mp h with
    | inl hfirst =>
      rw [← hfirst, sites, List.cons_append]
      exact ⟨row, List.mem_cons_self, fun s hs => List.mem_cons_of_mem _ (List.mem_append_left _ hs)⟩
    | inr hlater =>
      obtain ⟨start, hsite, hinner⟩ := ih hlater (row + item.rows)
      exact ⟨start, List.mem_append_right _ hsite, fun s hs => List.mem_append_right _ (hinner hs)⟩

theorem exists_sites_of_mem {s : Segment Item} (h : s ∈ segments) (row depth : Nat) :
    ∃ start, sitesAll start (depth + 1) s.body ⊆ sitesSegments row depth segments := by
  induction segments generalizing row with
  | nil => contradiction
  | cons first later ih =>
    obtain ⟨heading, body⟩ := first
    rw [sitesSegments]
    cases List.mem_cons.mp h with
    | inl hfirst =>
      subst hfirst
      exact ⟨row + 1, fun t ht => List.mem_append_left _ ht⟩
    | inr hlater =>
      obtain ⟨start, hstart⟩ := ih hlater (row + 1 + rowsAll body)
      exact ⟨start, fun t ht => List.mem_append_right _ (hstart ht)⟩

theorem exists_site_of_nested {outer : List (List (Segment Item))} (h : Nested items (outer ++ [segments]))
    (row depth : Nat) : ∃ site ∈ sitesAll row depth items, site.segments = segments := by
  induction outer generalizing items row depth with
  | nil =>
    obtain ⟨start, hsite, -⟩ := exists_site_of_mem h.1 row depth
    exact ⟨_, hsite, rfl⟩
  | cons around outer ih =>
    obtain ⟨haround, hinner⟩ := h
    obtain ⟨s, hs, hnested⟩ := hinner.resolve_left (by simp)
    obtain ⟨start, -, hinside⟩ := exists_site_of_mem haround row depth
    obtain ⟨first, hbody⟩ := exists_sites_of_mem hs start depth
    obtain ⟨site, hsite, hsegments⟩ := ih hnested first (depth + 1)
    exact ⟨site, hinside (hbody hsite), hsegments⟩

end Item

namespace Layout

variable {ι α : Type} [Length α]

theorem frames_item (l : Layout α) (s : BlockSite) :
    (l.item s.row s.depth (.block s.segments) : LayoutRun ι α).frames = (s :: s.inner).map l.placedFrame := by
  have hrun := frames_items (ι := ι) l [.block s.segments] s.row s.depth
  rw [Item.sitesAll, Item.sitesAll, Item.sites, List.append_nil] at hrun
  exact hrun

end Layout

namespace Diagram

variable {α : Type} [Length α]

/-- The blocks at their places are all that are in a diagram, at whatever depth. -/
theorem nested_iff_mem_blocks {ι : Type} (d : Diagram ι) (segments : List (Segment Item)) :
    (∃ outer, Item.Nested d.items (outer ++ [segments])) ↔ ∃ s ∈ d.blocks, s.segments = segments := by
  constructor
  · rintro ⟨outer, hnested⟩
    exact Item.exists_site_of_nested hnested 2 0
  · rintro ⟨s, hs, rfl⟩
    rw [blocks_eq] at hs
    obtain ⟨scope, hscope, rfl⟩ := List.mem_map.mp hs
    obtain ⟨outer, -, hnested⟩ := Item.holds_scopesAll d.items [] [] scope hscope
    exact ⟨outer, hnested⟩

/-- How many frames end with a block is how many of the frames that it is laid out with, its own and those of the
blocks in it at whatever depth, have the same last row as its own. So it is for every block of a diagram that was
loaded, and these frames are among those of the diagram. -/
theorem closing_eq_frames {text : String} {d : Diagram BuiltinIcon} (hload : load text = .ok d) (config : Config α)
    (font : Font α) :
    (∀ segments, (∃ outer, Item.Nested d.items (outer ++ [segments])) ↔ ∃ s ∈ d.blocks, s.segments = segments) ∧
    ∀ s ∈ d.blocks,
      let l := d.layout config font
      let frames := (l.item s.row s.depth (.block s.segments) : LayoutRun BuiltinIcon α).frames
      (frames = (s :: s.inner).map l.placedFrame ∧
        frames.Sublist (l.items 2 0 d.items : LayoutRun BuiltinIcon α).frames) ∧
      (l.frameAt s).closing = Item.closing (.block s.segments) ∧
      Item.closing (.block s.segments) = frames.countP (·.item.lastRow = (l.frameAt s).lastRow) := by
  refine ⟨nested_iff_mem_blocks d, fun s hs => ?_⟩
  intro l frames
  have hsound := sound_of_load hload
  have harranged := arranged_blocks hsound
  have hframes : frames = (s :: s.inner).map l.placedFrame := l.frames_item s
  refine ⟨⟨hframes, ?_⟩, rfl, ?_⟩
  · rw [hframes, Layout.frames_items]
    exact (harranged.within s hs).map _
  · rw [hframes, List.countP_map]
    exact BlockSite.closing_eq_countP (harranged.filled_of_mem hsound.filled hs)

def togetherSample : String := "alt\nloop\na->b\nend\nelse\nend\nalt\nloop\nb->a\nend\na->b\nelse\nloop\nb->b\nend\nend"

theorem closing_eq_frames_togetherSample :
    ∃ d : Diagram BuiltinIcon, load togetherSample = .ok d ∧
      (d.blocks.map fun s => (s.row, s.lastRow, Item.closing (.block s.segments))) =
        [(2, 5, 1), (3, 4, 1), (6, 12, 2), (7, 8, 1), (11, 12, 1)] ∧
      ∀ s ∈ d.blocks, Item.closing (.block s.segments) =
        ((d.layout (.standard : Config Rat) .plain).item s.row s.depth (.block s.segments) :
          LayoutRun BuiltinIcon Rat).frames.countP (·.item.lastRow = s.lastRow) := by
  have hblocks : (load togetherSample).toOption.map (fun d =>
      d.blocks.map fun s => (s.row, s.lastRow, Item.closing (.block s.segments))) =
        some [(2, 5, 1), (3, 4, 1), (6, 12, 2), (7, 8, 1), (11, 12, 1)] := by
    decide +kernel
  obtain ⟨d, hload, hblocks⟩ := toOption_map_eq_some.mp hblocks
  obtain ⟨-, hcount⟩ := closing_eq_frames hload (.standard : Config Rat) .plain
  exact ⟨d, hload, hblocks, fun s hs => (hcount s hs).2.2⟩

end Diagram

end SequenceChart
