import Mathlib.Tactic.NormNum
import SequenceChart.Proofs.Chart.Sites
import SequenceChart.Proofs.Grid.Level

/-! Room for shapes. Under a configuration whose distances are not negative every constraint of a chart keeps
to its grid and only ever widens gaps, and no constraint holds two rows apart. -/

namespace SequenceChart

theorem two_eq : (2.0 : Rat) = 2 := by norm_num

namespace TextBlock

theorem width_nonneg (b : TextBlock Rat) : 0 ≤ b.size.width := by
  have hwidest : ∀ (rows : List (TextRow Rat)) {width : Rat}, 0 ≤ width →
      0 ≤ rows.foldl (fun width row => max width row.width) width := by
    intro rows
    induction rows with
    | nil => exact id
    | cons row later ih => exact fun h => ih (le_max_of_le_left h)
  exact hwidest b.rows (le_of_eq Gaps.zero_eq.symm)

theorem rowHeight_nonneg (font : Font Rat) (text : String) {style : TextStyle Rat} (hsize : 0 ≤ style.size) :
    0 ≤ (measure font text style).rowHeight := by
  have hhighest : ∀ (sizes : List (Size Rat)) {height : Rat}, 0 ≤ height →
      0 ≤ sizes.foldl (fun height size => max height size.height) height := by
    intro sizes
    induction sizes with
    | nil => exact id
    | cons size later ih => exact fun h => ih (le_max_of_le_left h)
  refine hhighest _ (mul_nonneg hsize ?_)
  norm_num

theorem height_nonneg (font : Font Rat) (text : String) {style : TextStyle Rat} (hsize : 0 ≤ style.size) :
    0 ≤ (measure font text style).size.height :=
  mul_nonneg (Nat.cast_nonneg _) (rowHeight_nonneg font text hsize)

end TextBlock

/-- The distances of the configuration that are added up, or that keep frames apart, make room. -/
structure Config.Roomy (c : Config Rat) : Prop where
  fontSize : 0 ≤ c.fontSize
  messagePadding : 0 ≤ c.messagePadding
  labelGap : 0 ≤ c.labelGap
  arrowDescent : 0 < c.arrowDescent
  selfLoopWidth : 0 ≤ c.selfLoopWidth
  blockPadding : 0 < c.blockPadding
  blockInset : 0 < c.blockInset
  blockTabPadding : 0 < c.blockTabPadding

theorem Config.roomy_standard : (standard : Config Rat).Roomy := by
  constructor <;> norm_num [standard]

namespace Shape

variable {rows cols : Nat}

theorem Message.fits {m : Message Rat} (hroom : 0 ≤ m.loop.width + m.labelGap + m.padding) {pos : GridPos}
    (hpos : pos.row ≤ rows ∧ pos.col ≤ cols) (hto : m.toCol ≤ cols) :
    ∀ c ∈ m.constraints pos, c.Fits rows cols := by
  have hzero : (0 : Rat) ≤ 0.0 := le_of_eq Gaps.zero_eq.symm
  have hlabel := m.label.width_nonneg
  unfold constraints
  dsimp only
  split
  · refine List.forall_mem_cons.mpr ⟨?_, List.forall_mem_singleton.mpr ?_⟩
    · exact Constraint.fits_add_horizontal hpos.1 hpos.2 hzero (by linarith)
    · exact Constraint.fits_floor hpos.1 hpos.2 _
  · refine List.forall_mem_cons.mpr ⟨?_, List.forall_mem_singleton.mpr ?_⟩
    · exact Constraint.fits_span hpos.1 hpos.2 hto _
    · exact Constraint.fits_floor hpos.1 hpos.2 _

theorem NoteBox.fits (n : NoteBox Rat) {pos : GridPos} (hpos : pos.row ≤ rows ∧ pos.col ≤ cols)
    (hother : ∀ col ∈ n.otherCol, col ≤ cols) : ∀ c ∈ n.constraints pos, c.Fits rows cols := by
  refine List.forall_mem_cons.mpr ⟨Constraint.fits_floor hpos.1 hpos.2 _, ?_⟩
  unfold sideConstraints
  dsimp only
  split
  · exact List.forall_mem_singleton.mpr (Constraint.fits_floor hpos.1 hpos.2 _)
  · exact List.forall_mem_singleton.mpr (Constraint.fits_floor hpos.1 hpos.2 _)
  · exact List.forall_mem_singleton.mpr (Constraint.fits_floor hpos.1 hpos.2 _)
  · rename_i other _ hsecond
    have hmin : min pos.col other ≤ cols := (Nat.min_le_left _ _).trans hpos.2
    have hmax : max pos.col other ≤ cols := Nat.max_le.mpr ⟨hpos.2, hother other hsecond⟩
    refine List.forall_mem_cons.mpr ⟨Constraint.fits_floor hpos.1 hmin _, ?_⟩
    refine List.forall_mem_cons.mpr ⟨Constraint.fits_floor hpos.1 hmax _, ?_⟩
    exact List.forall_mem_singleton.mpr (Constraint.fits_span hpos.1 hmin hmax _)

theorem Separator.fits (s : Separator Rat) {pos : GridPos} (hpos : pos.row ≤ rows ∧ pos.col ≤ cols) :
    ∀ c ∈ s.constraints pos cols, c.Fits rows cols := by
  refine List.forall_mem_cons.mpr ⟨Constraint.fits_floor hpos.1 hpos.2 _, ?_⟩
  exact List.forall_mem_singleton.mpr (Constraint.fits_span hpos.1 hpos.2 (le_refl cols) _)

theorem Title.fits (t : Title Rat) {pos : GridPos} (hpos : pos.row ≤ rows ∧ pos.col ≤ cols) :
    ∀ c ∈ t.constraints pos cols, c.Fits rows cols := by
  refine List.forall_mem_cons.mpr ⟨Constraint.fits_floor hpos.1 hpos.2 _, ?_⟩
  exact List.forall_mem_singleton.mpr (Constraint.fits_span hpos.1 hpos.2 (le_refl cols) _)

theorem Frame.fits {f : Frame Rat} (hpadding : 0 ≤ f.padding) (hinset : 0 ≤ f.inset) {pos : GridPos}
    (hpos : pos.row ≤ rows ∧ pos.col ≤ cols) (hheaders : ∀ h ∈ f.segments, h.row ≤ rows)
    (hlast : f.lastRow ≤ rows) : ∀ c ∈ f.constraints pos cols, c.Fits rows cols := by
  have hzero : (0 : Rat) ≤ 0.0 := le_of_eq Gaps.zero_eq.symm
  unfold constraints
  rw [List.forall_mem_append, List.forall_mem_append]
  refine ⟨⟨?_, ?_⟩, ?_⟩
  · have hmargin : 0 ≤ (f.marginLevels : Rat) * f.inset := mul_nonneg (Nat.cast_nonneg _) hinset
    unfold marginConstraints
    split
    · exact nofun
    · refine List.forall_mem_cons.mpr ⟨?_, List.forall_mem_singleton.mpr ?_⟩
      · exact Constraint.fits_add_horizontal hpos.1 hpos.2 hzero hmargin
      · exact Constraint.fits_add_horizontal hpos.1 (le_refl cols) hmargin hzero
  · refine List.forall_mem_flatMap.mpr fun h hh => ?_
    have hrow := hheaders h hh
    refine List.forall_mem_cons.mpr ⟨Constraint.fits_floor hrow (Nat.zero_le _) _, ?_⟩
    refine List.forall_mem_cons.mpr ⟨?_, List.forall_mem_singleton.mpr ?_⟩
    · exact Constraint.fits_add_vertical hrow (Nat.zero_le _) hpadding hzero
    · exact Constraint.fits_span hrow (Nat.zero_le _) (le_refl cols) _
  · refine List.forall_mem_singleton.mpr ?_
    exact Constraint.fits_add_vertical hlast (Nat.zero_le _) hzero hpadding

end Shape

namespace Layout

variable {ι α : Type} [Length α]

/-- The shape of an entry on its row; a header is part of the frame of its block. -/
def placedEntry (l : Layout α) : Entry × Nat → Option (Placed (Shape ι α))
  | (.action a, row) => some ⟨⟨row, l.col a.sender⟩, .message (l.message a)⟩
  | (.note n, row) => some ⟨⟨row, l.col n.first⟩, .note (l.note n)⟩
  | (.divider d, row) => some ⟨⟨row, 0⟩, .separator (l.separator d)⟩
  | (.header _, _) => none

theorem shapes_segments (l : Layout α) {segments : List (Segment Item)}
    (hbodies : ∀ s ∈ segments, ∀ row depth, (l.items row depth s.body : LayoutRun ι α).shapes =
      ((Item.entriesAll s.body).zipIdx row).filterMap l.placedEntry) (row depth : Nat) :
    (l.segments row depth segments : SegmentRun ι α).shapes =
      ((Item.entriesSegments segments).zipIdx row).filterMap l.placedEntry := by
  induction segments generalizing row with
  | nil => rfl
  | cons s later ih =>
    obtain ⟨heading, body⟩ := s
    obtain ⟨hbody, hrest⟩ := List.forall_mem_cons.mp hbodies
    rw [segments_cons, next_items, Item.entriesSegments, List.zipIdx_cons, List.filterMap_cons,
      List.zipIdx_append, List.filterMap_append, ← hbody, Item.length_entriesAll, ← ih hrest]
    rfl

theorem shapes_items (l : Layout α) (items : List Item) (row depth : Nat) :
    (l.items row depth items : LayoutRun ι α).shapes =
      ((Item.entriesAll items).zipIdx row).filterMap l.placedEntry := by
  induction items using Item.forest_induction generalizing row depth with
  | nil => rfl
  | action a later ih =>
    rw [items_cons]
    exact congrArg (List.cons _) (ih (row + 1) depth)
  | note n later ih =>
    rw [items_cons]
    exact congrArg (List.cons _) (ih (row + 1) depth)
  | divider d later ih =>
    rw [items_cons]
    exact congrArg (List.cons _) (ih (row + 1) depth)
  | block segments later ihbodies ih =>
    rw [items_cons, item_block, Item.entriesAll, Item.entries, List.zipIdx_append, List.filterMap_append,
      Item.length_entriesSegments, ← shapes_segments l ihbodies, ← ih (row + Item.rowsSegments segments) depth]
    dsimp only [LayoutRun.append]
    rw [next_segments]

omit [Length α] in
theorem mem_reserveMargins {frames : List (Placed (Shape.Frame α))} {placed : Placed (Shape.Frame α)}
    (h : placed ∈ reserveMargins frames) :
    ∃ first ∈ frames, ∃ levels, placed = ⟨first.pos, { first.item with marginLevels := levels }⟩ := by
  cases frames with
  | nil => contradiction
  | cons first later =>
    cases List.mem_cons.mp h with
    | inl hfirst => exact ⟨first, List.mem_cons_self, _, hfirst⟩
    | inr hlater => exact ⟨placed, List.mem_cons_of_mem first hlater, placed.item.marginLevels, rfl⟩

omit [Length α] in
theorem exists_mem_reserveMargins {frames : List (Placed (Shape.Frame α))} {placed : Placed (Shape.Frame α)}
    (h : placed ∈ frames) :
    ∃ levels, ⟨placed.pos, { placed.item with marginLevels := levels }⟩ ∈ reserveMargins frames := by
  cases frames with
  | nil => contradiction
  | cons first later =>
    cases List.mem_cons.mp h with
    | inl hfirst =>
      subst hfirst
      exact ⟨_, List.mem_cons_self⟩
    | inr hlater => exact ⟨placed.item.marginLevels, List.mem_cons_of_mem _ hlater⟩

theorem exists_footer_of_mem_boxes {l : Layout α} {actor : Actor ι} {placed : Placed (Shape ι α)}
    (h : placed ∈ l.boxes actor) :
    ∃ footer, placed = ⟨⟨if footer then l.rows else 1, actorCol actor.rank⟩, .actorBox (l.actorBox actor footer)⟩ := by
  cases List.mem_append.mp h with
  | inl hheader =>
    split at hheader
    · exact ⟨false, List.mem_singleton.mp hheader⟩
    · contradiction
  | inr hfooter =>
    split at hfooter
    · exact ⟨true, List.mem_singleton.mp hfooter⟩
    · contradiction

theorem row_le_of_mem_headers {l : Layout α} {s : BlockSite} {h : Shape.FrameHeader α}
    (hh : h ∈ l.headers s.parts) : h.row ≤ s.lastRow := by
  obtain ⟨part, hpart, rfl⟩ := List.mem_map.mp hh
  have hinside := Item.mem_parts hpart
  unfold BlockSite.lastRow frameHeader
  dsimp only
  omega

end Layout

namespace Diagram

variable {ι : Type} {d : Diagram ι} (h : d.Sound) {config : Config Rat} (hroomy : config.Roomy) (font : Font Rat)

include h hroomy

theorem fits_entry [Icon ι Rat] {e : Entry} {row : Nat} (he : (e, row) ∈ (Item.entriesAll d.items).zipIdx 2)
    {placed : Placed (Shape ι Rat)} (hplaced : (d.layout config font).placedEntry (e, row) = some placed) :
    ∀ c ∈ placed.item.constraints placed.pos d.lastCol, c.Fits d.lastRow d.lastCol := by
  obtain ⟨_, hlt, hentry⟩ := List.mem_zipIdx he
  rw [Item.length_entriesAll] at hlt
  have hrow : row ≤ d.lastRow := Nat.le_of_lt hlt
  have hcol : ∀ p ∈ e.participants, (d.layout config font).col p ≤ d.lastCol := fun p hp =>
    Layout.col_le rfl (h.ranked.within e (hentry ▸ List.getElem_mem _) p hp)
  cases e with
  | action a =>
    obtain rfl := Option.some.inj hplaced
    have hsender := hcol a.sender List.mem_cons_self
    have hreceiver := hcol a.receiver (List.mem_cons_of_mem _ List.mem_cons_self)
    refine Shape.Message.fits (m := (d.layout config font).message a) ?_ ⟨hrow, hsender⟩ hreceiver
    exact add_nonneg (add_nonneg hroomy.selfLoopWidth hroomy.labelGap) hroomy.messagePadding
  | note n =>
    obtain rfl := Option.some.inj hplaced
    refine Shape.NoteBox.fits _ ⟨hrow, hcol n.first List.mem_cons_self⟩ ?_
    intro col hother
    obtain ⟨p, hp, rfl⟩ := Option.mem_map.mp (Option.filter_eq_some_iff.mp hother).1
    exact hcol p (List.mem_cons_of_mem _ (Option.mem_toList.mpr hp))
  | divider divider =>
    obtain rfl := Option.some.inj hplaced
    exact Shape.Separator.fits _ ⟨hrow, Nat.zero_le _⟩
  | header heading => contradiction

theorem fits_frame {s : BlockSite} (hs : s ∈ d.blocks) (levels : Nat) :
    ∀ c ∈ ({ (d.layout config font).frameAt s with marginLevels := levels } : Shape.Frame Rat).constraints
      ⟨s.row, 0⟩ d.lastCol, c.Fits d.lastRow d.lastCol := by
  have hlast : s.lastRow ≤ d.lastRow := (lastRow_lt_lastRow h hs).le
  have hrow : s.row ≤ d.lastRow := (row_lt_lastRow h hs).le
  have hheaders : ∀ header ∈ (d.layout config font).headers s.parts, header.row ≤ d.lastRow := fun _ hh =>
    (Layout.row_le_of_mem_headers hh).trans hlast
  exact Shape.Frame.fits hroomy.blockPadding.le hroomy.blockInset.le ⟨hrow, Nat.zero_le _⟩ hheaders hlast

theorem fits_placements [Icon ι Rat] : ∀ placed ∈ (d.layout config font).placements d,
    ∀ c ∈ placed.item.constraints placed.pos d.lastCol, c.Fits d.lastRow d.lastCol := by
  intro placed hplaced
  obtain ⟨hrow, hcol⟩ := contains_placements h.ranked config font placed hplaced
  unfold Layout.placements at hplaced
  simp only [List.mem_append] at hplaced
  obtain (((hplaced | hplaced) | hplaced) | hplaced) | hplaced := hplaced
  · obtain ⟨a, _, hplaced⟩ := List.mem_flatMap.mp hplaced
    obtain ⟨footer, rfl⟩ := Layout.exists_footer_of_mem_boxes hplaced
    exact List.forall_mem_singleton.mpr (Constraint.fits_floor hrow hcol _)
  · obtain ⟨a, ha, rfl⟩ := List.mem_map.mp hplaced
    exact List.forall_mem_singleton.mpr (Constraint.fits_floor (le_refl _) hcol _)
  · obtain ⟨title, _, rfl⟩ := List.mem_map.mp hplaced
    exact Shape.Title.fits _ ⟨hrow, hcol⟩
  · rw [Layout.shapes_items] at hplaced
    obtain ⟨e, he, hplaced⟩ := List.mem_filterMap.mp hplaced
    exact fits_entry h hroomy font he hplaced
  · obtain ⟨frame, hframe, rfl⟩ := List.mem_map.mp hplaced
    obtain ⟨first, hfirst, levels, rfl⟩ := Layout.mem_reserveMargins hframe
    rw [Layout.frames_items] at hfirst
    obtain ⟨s, hs, rfl⟩ := List.mem_map.mp hfirst
    exact fits_frame h hroomy font hs levels

/-- Every constraint of a chart keeps to its grid, widens gaps only, and holds no rows apart. -/
theorem fits_graphic [Icon ι Rat] : ∀ c ∈ (d.graphic config font).constraints,
    c.Fits (d.graphic config font).grid.rows (d.graphic config font).grid.cols := by
  rw [graphic_eq h.ranked config font]
  exact List.forall_mem_flatMap.mpr (fits_placements h hroomy font)

end Diagram

end SequenceChart
