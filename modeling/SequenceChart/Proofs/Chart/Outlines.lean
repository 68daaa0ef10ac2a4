import SequenceChart.Chart.Document
import SequenceChart.Proofs.Chart.BlockGap
import SequenceChart.Proofs.Diagram.Loaded

/-! Outlines of frames. A frame around another one keeps a distance on every side. A frame below another one
keeps a distance too, unless it follows at once and its tab takes the padding that frames inside of the upper one
have asked for. -/

namespace SequenceChart

structure Outline (α : Type) where
  left : α
  right : α
  top : α
  bottom : α

namespace Outline

def call {α : Type} [Length α] (o : Outline α) (stroke : Stroke α) : Call α :=
  .rect ⟨o.left, o.top⟩ ⟨o.right - o.left, o.bottom - o.top⟩ (some stroke) none

structure Inside (inner outer : Outline Rat) : Prop where
  left : outer.left < inner.left
  right : inner.right < outer.right
  top : outer.top < inner.top
  bottom : inner.bottom < outer.bottom

end Outline

namespace Shape.Frame

variable {α : Type} [Length α]

def outline (f : Frame α) (g : Grid α) : Outline α :=
  let (left, right) := f.edges g
  let y := fun row => (g.point row 0).y
  ⟨left, right, (f.tops y).headD (f.bottom y), f.bottom y⟩

theorem outline_mem_draw {f : Frame α} (h : f.segments ≠ []) (g : Grid α) :
    (f.outline g).call f.stroke ∈ f.draw g := by
  unfold draw outline tops
  cases hsegments : f.segments with
  | nil => contradiction
  | cons first later => exact List.mem_cons_self

end Shape.Frame

namespace Layout

variable {ι α : Type} [Length α] [Icon ι α]

theorem draw_reserveMargins (frames : List (Placed (Shape.Frame α))) (g : Grid α) :
    (reserveMargins frames).flatMap (·.item.draw g) = frames.flatMap (·.item.draw g) := by
  cases frames <;> rfl

end Layout

namespace Diagram

section Calls

variable {ι α : Type} [Length α] [Icon ι α]

/-- What a picture consists of: everything but the frames, then the frames in the order of the blocks. -/
theorem calls_picture {d : Diagram ι} (h : d.Ranked) (config : Config α) (font : Font α) :
    (d.picture config font).calls = .setSize (d.picture config font).size ::
      ((((d.layout config font).unframed d).flatMap fun placed =>
        placed.item.draw (d.graphic config font).resolve.1.grid
          ((d.graphic config font).resolve.1.grid.point placed.pos.row placed.pos.col)) ++
        d.blocks.flatMap (fun s =>
          ((d.layout config font).frameAt s).draw (d.graphic config font).resolve.1.grid) ++ [.close]) := by
  have hitems : (d.graphic config font).items = (d.layout config font).unframed d ++
      (Layout.reserveMargins (d.blocks.map (d.layout config font).placedFrame)).map Layout.placeFrame := by
    rw [graphic_eq h config font, ← Layout.placements_eq]
  have hcalls : (d.picture config font).calls = .setSize (d.picture config font).size ::
      ((d.graphic config font).items.flatMap (fun placed =>
        placed.item.draw (d.graphic config font).resolve.1.grid
          ((d.graphic config font).resolve.1.grid.point placed.pos.row placed.pos.col)) ++ [.close]) := rfl
  rw [hcalls, hitems, List.flatMap_append, List.flatMap_map, List.append_assoc, List.append_assoc]
  have hframes := Layout.draw_reserveMargins (d.blocks.map (d.layout config font).placedFrame)
    (d.graphic config font).resolve.1.grid
  rw [List.flatMap_map] at hframes
  exact congrArg (fun calls => _ :: (_ ++ (calls ++ _))) hframes

theorem mem_calls_of_mem_frame {d : Diagram ι} (h : d.Ranked) {config : Config α} {font : Font α} {s : BlockSite}
    (hs : s ∈ d.blocks) {call : Call α}
    (hcall : call ∈ ((d.layout config font).frameAt s).draw (d.graphic config font).resolve.1.grid) :
    call ∈ (d.picture config font).calls := by
  rw [calls_picture h]
  refine List.mem_cons_of_mem _ (List.mem_append_left _ (List.mem_append_right _ ?_))
  exact List.mem_flatMap.mpr ⟨s, hs, hcall⟩

theorem mem_calls_of_mem_unframed {d : Diagram ι} (h : d.Ranked) {config : Config α} {font : Font α}
    {placed : Placed (Shape ι α)} (hplaced : placed ∈ (d.layout config font).unframed d) {call : Call α}
    (hcall : call ∈ placed.item.draw (d.graphic config font).resolve.1.grid
      ((d.graphic config font).resolve.1.grid.point placed.pos.row placed.pos.col)) :
    call ∈ (d.picture config font).calls := by
  rw [calls_picture h]
  refine List.mem_cons_of_mem _ (List.mem_append_left _ (List.mem_append_left _ ?_))
  exact List.mem_flatMap.mpr ⟨placed, hplaced, hcall⟩

end Calls

variable {ι : Type} [Icon ι Rat]

def outline (d : Diagram ι) (config : Config Rat) (font : Font Rat) (s : BlockSite) : Outline Rat :=
  ((d.layout config font).frameAt s).outline (d.graphic config font).resolve.1.grid

def outlineCall (d : Diagram ι) (config : Config Rat) (font : Font Rat) (s : BlockSite) : Call Rat :=
  (d.outline config font s).call (.solid config.style.blockStroke 1.0)

variable {d : Diagram ι} (h : d.Sound) {config : Config Rat} (font : Font Rat)

include h

theorem outlineCall_mem {s : BlockSite} (hs : s ∈ d.blocks) :
    d.outlineCall config font s ∈ (d.picture config font).calls := by
  obtain ⟨first, later, hsegments, _⟩ := (d.layout config font).exists_segments (h.filled s hs)
  refine mem_calls_of_mem_frame h.ranked hs (Shape.Frame.outline_mem_draw ?_ _)
  rw [hsegments]
  exact List.cons_ne_nil _ _

theorem top_outline {s : BlockSite} (hs : s ∈ d.blocks) :
    (d.outline config font s).top = d.rowY config font s.row - d.tabHeight config font s := by
  obtain ⟨first, later, hsegments, _⟩ := (d.layout config font).exists_segments (h.filled s hs)
  unfold outline tabHeight Shape.Frame.outline Shape.Frame.tops
  rw [hsegments]
  rfl

omit h in
theorem bottom_outline (s : BlockSite) :
    (d.outline config font s).bottom =
      d.rowY config font s.lastRow + s.closing * config.blockPadding - config.blockPadding / 2 := by
  rw [← two_eq]
  rfl

variable (hroomy : config.Roomy)

include hroomy

theorem rowY_le_tab {s : BlockSite} (hs : s ∈ d.blocks) {header : Shape.FrameHeader Rat}
    (hheader : header ∈ ((d.layout config font).frameAt s).segments) {row : Nat} (hrow : row < header.row) :
    d.rowY config font row + config.blockPadding ≤
      d.rowY config font header.row - (((d.layout config font).frameAt s).tabSize header).height := by
  obtain ⟨above, habove⟩ : ∃ above, header.row = above + 1 := ⟨header.row - 1, by omega⟩
  have hlast : above < d.lastRow := by
    have hwithin := Layout.row_le_of_mem_headers hheader
    have hends := lastRow_lt_lastRow h hs
    omega
  have hmono := rowY_mono h font hroomy (show row ≤ above by omega)
  have hgap := tab_le_rowGap h hroomy font hs hheader
  rw [habove] at hgap ⊢
  rw [rowY_succ h font hlast]
  linarith

theorem rowY_le_top {s : BlockSite} (hs : s ∈ d.blocks) {row : Nat} (hrow : row < s.row) :
    d.rowY config font row + config.blockPadding ≤ (d.outline config font s).top := by
  obtain ⟨first, later, hsegments, _⟩ := (d.layout config font).exists_segments (h.filled s hs)
  have hfirst : (d.layout config font).frameHeader s.row first ∈ ((d.layout config font).frameAt s).segments := by
    rw [hsegments]
    exact List.mem_cons_self
  rw [top_outline h font hs, tabHeight, hsegments]
  exact rowY_le_tab h font hroomy hs hfirst hrow

theorem bottom_le_rowY {s : BlockSite} (hs : s ∈ d.blocks) {row : Nat} (hrow : s.lastRow < row)
    (hlast : row ≤ d.lastRow) :
    (d.outline config font s).bottom + config.blockPadding / 2 ≤ d.rowY config font row := by
  have hclosing : (s.closing : Rat) ≤ d.blocks.countP (·.lastRow = s.lastRow) :=
    Nat.cast_le.mpr ((arranged_blocks h).closing_le_countP h.filled hs)
  have hgap := padding_le_rowGap h hroomy font (show s.lastRow + 1 ≤ d.lastRow + 1 by omega)
  have hmono := rowY_mono h font hroomy (show s.lastRow + 1 ≤ row by omega)
  have hroom := mul_le_mul_of_nonneg_right hclosing hroomy.blockPadding.le
  simp only [Nat.add_right_cancel_iff] at hgap
  rw [rowY_succ h font (hrow.trans_le hlast)] at hmono
  rw [bottom_outline]
  linarith

omit [Icon ι Rat] in
theorem tabHeight_pos {s : BlockSite} (hs : s ∈ d.blocks) : 0 < d.tabHeight config font s := by
  obtain ⟨first, later, hsegments, _⟩ := (d.layout config font).exists_segments (h.filled s hs)
  unfold tabHeight
  rw [hsegments]
  refine Layout.tabHeight_pos (l := d.layout config font) hroomy ?_
  rw [hsegments]
  exact List.mem_cons_self

theorem outline_inside {s t : BlockSite} (hs : s ∈ d.blocks) (ht : t ∈ s.inner) :
    (d.outline config font t).Inside (d.outline config font s) := by
  have harranged := arranged_blocks h
  have hholds := BlockSite.holds_inner (harranged.filled_of_mem h.filled hs) ht
  have hmem : t ∈ d.blocks := (harranged.within s hs).subset (List.mem_cons_of_mem s ht)
  have hpadding := hroomy.blockPadding
  have hclosing : (1 : Rat) ≤ s.closing := by exact_mod_cast s.closing_pos
  have hshift : (s.depth : Rat) * config.blockInset < t.depth * config.blockInset :=
    mul_lt_mul_of_pos_right (Nat.cast_lt.mpr hholds.depth_lt) hroomy.blockInset
  constructor
  case left => exact add_lt_add_right hshift _
  case right => exact sub_lt_sub_left hshift _
  case top =>
    have htab := tabHeight_pos h font hroomy hs
    have hbelow := rowY_le_top h font hroomy hmem hholds.row_lt
    rw [top_outline h font hs]
    linarith
  case bottom =>
    obtain hsame | hbelow := hholds.lastRow_le.eq_or_lt
    · have hfewer : (t.closing : Rat) * config.blockPadding < s.closing * config.blockPadding :=
        mul_lt_mul_of_pos_right (Nat.cast_lt.mpr (hholds.closing_lt hsame)) hpadding
      rw [bottom_outline, bottom_outline, hsame]
      linarith
    · have habove := bottom_le_rowY h font hroomy hmem hbelow (lastRow_lt_lastRow h hs).le
      have hroom := mul_le_mul_of_nonneg_right hclosing hpadding.le
      rw [bottom_outline font s]
      linarith

theorem bottom_le_top_of_row_between {s t : BlockSite} (hs : s ∈ d.blocks) (ht : t ∈ d.blocks) {row : Nat}
    (hbelow : s.lastRow < row) (habove : row < t.row) :
    (d.outline config font s).bottom ≤ (d.outline config font t).top := by
  have hend := bottom_le_rowY h font hroomy hs hbelow (habove.trans (row_lt_lastRow h ht)).le
  have htop := rowY_le_top h font hroomy ht habove
  linarith [hroomy.blockPadding]

/-- How far the frame of a block that follows at once lies below the end of the one before. The padding of this
one and of the frames inside of it stands in the gap only as far as the tab leaves it. -/
theorem top_sub_bottom {s t : BlockSite} (ht : t ∈ d.blocks) (hnext : t.row = s.lastRow + 1) :
    (d.outline config font t).top - (d.outline config font s).bottom =
      max (d.descent config s.lastRow + d.blocks.countP (·.lastRow = s.lastRow) * config.blockPadding)
        (d.tabHeight config font t) - d.tabHeight config font t + (3 / 2 - s.closing) * config.blockPadding := by
  have hlast := row_lt_lastRow h ht
  have hgap := rowGap_first h hroomy font ht hnext
  have hstep : d.rowY config font (s.lastRow + 1) =
      d.rowY config font s.lastRow + d.rowGap config font (s.lastRow + 1) :=
    rowY_succ h font (by omega)
  rw [bottom_outline, top_outline h font ht, hnext, hstep, ← hnext, hgap]
  ring

theorem bottom_le_top_iff {s t : BlockSite} (hs : s ∈ d.blocks) (ht : t ∈ d.blocks) (hrow : s.row < t.row)
    (hapart : t ∉ s.inner) :
    (d.outline config font s).bottom ≤ (d.outline config font t).top ↔
      t.row ≠ s.lastRow + 1 ∨ s.closing = 1 ∨
        d.tabHeight config font t ≤ d.descent config s.lastRow +
          ((d.blocks.countP (·.lastRow = s.lastRow) : Rat) - s.closing + 3 / 2) * config.blockPadding := by
  have hpadding := hroomy.blockPadding
  have hbelow := (arranged_blocks h).lastRow_lt hs ht hrow hapart
  by_cases hnext : t.row = s.lastRow + 1
  · simp only [hnext, ne_eq, not_true_eq_false, false_or]
    rw [← sub_nonneg, top_sub_bottom h font hroomy ht hnext]
    have hbase := le_max_left
      (d.descent config s.lastRow + d.blocks.countP (·.lastRow = s.lastRow) * config.blockPadding)
      (d.tabHeight config font t)
    have htab := le_max_right
      (d.descent config s.lastRow + d.blocks.countP (·.lastRow = s.lastRow) * config.blockPadding)
      (d.tabHeight config font t)
    constructor
    · intro hclear
      refine or_iff_not_imp_left.mpr fun hseveral => ?_
      have htwo : (2 : Rat) ≤ s.closing := by
        have hpos := s.closing_pos
        exact_mod_cast (show 2 ≤ s.closing by omega)
      have hroom := mul_le_mul_of_nonneg_right htwo hpadding.le
      -- two frames or more end above: a tab that takes all of their padding leaves no room for them
      cases le_total (d.tabHeight config font t)
        (d.descent config s.lastRow + d.blocks.countP (·.lastRow = s.lastRow) * config.blockPadding) with
      | inl hfits =>
        rw [max_eq_left hfits] at hclear
        linarith
      | inr htaken =>
        rw [max_eq_right htaken] at hclear
        linarith
    · rintro (hone | hfits)
      · rw [hone, Nat.cast_one]
        linarith
      · linarith
  · have hclear := bottom_le_top_of_row_between h font hroomy hs ht (Nat.lt_succ_self s.lastRow) (by omega)
    simp only [hnext, ne_eq, not_false_eq_true, true_or, iff_true]
    exact hclear

end Diagram

namespace Diagram

/-- Whether the frames of two blocks that follow each other keep clear. A frame ends above every later one that
does not follow at once or if no other frame ends with it. Otherwise the tab below takes from the padding that the
frames inside of the upper one have asked for, and the frames overlap as soon as it is too high. -/
theorem frames_clear_iff {text : String} {d : Diagram BuiltinIcon} (hload : load text = .ok d) (font : Font Rat)
    {earlier later : BlockSite} (hearlier : earlier ∈ d.blocks) (hlater : later ∈ d.blocks)
    (hrow : earlier.row < later.row) (hapart : later ∉ earlier.inner) :
    (d.outlineCall .standard font earlier ∈ (d.picture .standard font).calls ∧
      d.outlineCall .standard font later ∈ (d.picture .standard font).calls) ∧
    ((d.outline .standard font earlier).bottom ≤ (d.outline .standard font later).top ↔
      later.row ≠ earlier.lastRow + 1 ∨ earlier.closing = 1 ∨
        d.tabHeight .standard font later ≤ 12 + d.descent .standard earlier.lastRow +
          8 * ((d.blocks.countP (·.lastRow = earlier.lastRow) : Rat) - earlier.closing)) := by
  have hsound := sound_of_load hload
  have hpadding : (Config.standard : Config Rat).blockPadding = 8 := by norm_num [Config.standard]
  refine ⟨⟨outlineCall_mem hsound font hearlier, outlineCall_mem hsound font hlater⟩, ?_⟩
  rw [bottom_le_top_iff hsound font Config.roomy_standard hearlier hlater hrow hapart, hpadding]
  ring_nf

def closingSample : String := "alt\nloop\na->b\nend\nend\nalt\na->b\nend"

theorem blocks_closingSample : ∃ d : Diagram BuiltinIcon, load closingSample = .ok d ∧
    d.blocks.map (fun s => (s.row, s.lastRow, s.closing, s.inner.map (·.row))) =
      [(2, 4, 2, [3]), (3, 4, 1, []), (5, 6, 1, [])] ∧
    d.blocks.map (d.tabHeight .standard .plain) = [23, 23, 23] ∧
    d.descent .standard 4 = 8 := by
  have hblocks : ((load closingSample).toOption.map fun d =>
      d.blocks.map fun s => (s.row, s.lastRow, s.closing, s.inner.map (·.row))) =
        some [(2, 4, 2, [3]), (3, 4, 1, []), (5, 6, 1, [])] := by
    decide +kernel
  have htabs : ((load closingSample).toOption.map fun d =>
      d.blocks.map (d.tabHeight .standard .plain)) = some [23, 23, 23] := by
    decide +kernel
  have hdescent : ((load closingSample).toOption.map fun d => d.descent .standard 4) = some 8 := by
    decide +kernel
  cases hload : load closingSample with
  | error e =>
    rw [hload] at hblocks
    contradiction
  | ok d =>
    rw [hload] at hblocks htabs hdescent
    exact ⟨d, rfl, Option.some.inj hblocks, Option.some.inj htabs, Option.some.inj hdescent⟩

theorem frames_clear_iff_closingSample :
    ∃ (d : Diagram BuiltinIcon) (earlier later : BlockSite), load closingSample = .ok d ∧
      (earlier ∈ d.blocks ∧ later ∈ d.blocks) ∧ (earlier.row < later.row ∧ later ∉ earlier.inner) ∧
      (d.outline .standard .plain later).top <
        (d.outline .standard .plain earlier).bottom := by
  obtain ⟨d, hload, hblocks, htabs, hdescent⟩ := blocks_closingSample
  obtain ⟨outer, inner, below, hsites⟩ : ∃ outer inner below, d.blocks = [outer, inner, below] :=
    List.length_eq_three.mp (by simpa using congrArg List.length hblocks)
  rw [hsites] at hblocks htabs
  simp only [List.map_cons, List.map_nil, List.cons.injEq, Prod.mk.injEq, and_true, List.map_eq_nil_iff]
    at hblocks htabs
  obtain ⟨⟨houterRow, houterLast, houterClosing, hinside⟩, ⟨_, hinnerLast, _⟩, hbelowRow, hbelowLast, _⟩ := hblocks
  have houter : outer ∈ d.blocks := by simp [hsites]
  have hbelow : below ∈ d.blocks := by simp [hsites]
  have hrow : outer.row < below.row := by omega
  have hapart : below ∉ outer.inner := by
    intro hmem
    have hrows : below.row ∈ outer.inner.map (·.row) := List.mem_map_of_mem hmem
    rw [hinside, hbelowRow] at hrows
    contradiction
  obtain ⟨_, hclear⟩ := frames_clear_iff hload .plain houter hbelow hrow hapart
  refine ⟨d, outer, below, hload, ⟨houter, hbelow⟩, ⟨hrow, hapart⟩, ?_⟩
  rw [← not_le, hclear, houterLast, houterClosing, hbelowRow, hdescent, htabs.2.2, hsites]
  norm_num [List.countP_cons, houterLast, hinnerLast, hbelowLast]

/-- The frame of a block is drawn inside of the frames of all blocks around it and touches none of them, even if
they end on the same row. -/
theorem nested_frames_inside {text : String} {d : Diagram BuiltinIcon} (hload : load text = .ok d) (font : Font Rat)
    {outer inner : BlockSite} (houter : outer ∈ d.blocks) (hinner : inner ∈ outer.inner) :
    (d.outlineCall .standard font outer ∈ (d.picture .standard font).calls ∧
      d.outlineCall .standard font inner ∈ (d.picture .standard font).calls) ∧
    (d.outline .standard font inner).Inside (d.outline .standard font outer) := by
  have hsound := sound_of_load hload
  have hmem : inner ∈ d.blocks :=
    ((arranged_blocks hsound).within outer houter).subset (List.mem_cons_of_mem outer hinner)
  exact ⟨⟨outlineCall_mem hsound font houter, outlineCall_mem hsound font hmem⟩,
    outline_inside hsound font Config.roomy_standard houter hinner⟩

theorem nested_frames_inside_closingSample :
    ∃ (d : Diagram BuiltinIcon) (outer inner : BlockSite), load closingSample = .ok d ∧ outer ∈ d.blocks ∧
      inner ∈ outer.inner ∧ (d.outline .standard .plain inner).Inside
        (d.outline .standard .plain outer) := by
  obtain ⟨d, hload, hblocks, _⟩ := blocks_closingSample
  obtain ⟨outer, later, hsites, hfirst, _⟩ := List.map_eq_cons_iff.mp hblocks
  obtain ⟨inner, hinner, _⟩ : ∃ inner ∈ outer.inner, inner.row = 3 := by
    apply List.mem_map.mp
    rw [(Prod.mk.inj (Prod.mk.inj (Prod.mk.inj hfirst).2).2).2]
    exact List.mem_singleton_self 3
  have houter : outer ∈ d.blocks := hsites ▸ List.mem_cons_self
  obtain ⟨_, hinside⟩ := nested_frames_inside hload .plain houter hinner
  exact ⟨d, outer, inner, hload, houter, hinner, hinside⟩

end Diagram

end SequenceChart
