import SequenceChart.Proofs.Chart.Texts

/-! Segments of blocks. Each one ends where the next one starts and encloses exactly the rows of its header and of
what is in it; its tab and its condition are drawn inside of it. -/

namespace SequenceChart

def Call.box? {α : Type} (font : Font α) : Call α → Option (Point α × Size α)
  | .rect corner size _ _ => some (corner, size)
  | .text corner content style => some (corner, font.measure content style.size)
  | _ => none

namespace Outline

structure Covers (o : Outline Rat) (corner : Point Rat) (size : Size Rat) : Prop where
  left : o.left ≤ corner.x
  right : corner.x + size.width ≤ o.right
  top : o.top ≤ corner.y
  bottom : corner.y + size.height ≤ o.bottom

/-- Whether a call draws a rectangle or a row of text inside of an outline. -/
def Encloses (o : Outline Rat) (font : Font Rat) (call : Call Rat) : Prop :=
  ∃ corner size, call.box? font = some (corner, size) ∧ o.Covers corner size

theorem Covers.mono {o : Outline Rat} {corner : Point Rat} {size : Size Rat} (h : o.Covers corner size)
    {inner : Point Rat} {part : Size Rat}
    (hpart : (⟨corner.x, corner.x + size.width, corner.y, corner.y + size.height⟩ : Outline Rat).Covers inner part) :
    o.Covers inner part where
  left := h.left.trans hpart.left
  right := hpart.right.trans h.right
  top := h.top.trans hpart.top
  bottom := hpart.bottom.trans h.bottom

end Outline

namespace TextBlock

theorem le_width {b : TextBlock Rat} {row : TextRow Rat} (hrow : row ∈ b.rows) : row.width ≤ b.size.width := by
  have hgrows : ∀ other ∈ b.rows, ∀ x : Rat, x ≤ max x other.width := fun _ _ _ => le_max_left _ _
  exact le_foldl_of_mem hgrows hrow (fun _ => le_max_right _ _) _

theorem mem_rows_measure {font : Font Rat} {text : String} {style : TextStyle Rat} {row : TextRow Rat}
    (hrow : row ∈ (measure font text style).rows) :
    row.width = (font.measure row.text style.size).width ∧
      (font.measure row.text style.size).height ≤ (measure font text style).rowHeight := by
  have hrows : (measure font text style).rows =
      (if text.isEmpty then [] else (Text.rows text.toList).map String.ofList).map fun row =>
        ⟨row, (font.measure row style.size).width⟩ := by
    simp only [measure, List.zipWith_map_right, List.zipWith_self]
  rw [hrows] at hrow
  obtain ⟨line, hline, rfl⟩ := List.mem_map.mp hrow
  refine ⟨rfl, ?_⟩
  have hgrows : ∀ size ∈ (if text.isEmpty then [] else (Text.rows text.toList).map String.ofList).map
      (font.measure · style.size), ∀ x : Rat, x ≤ max x size.height := fun _ _ _ => le_max_left _ _
  exact le_foldl_of_mem hgrows (List.mem_map_of_mem hline) (fun _ => le_max_right _ _) _

theorem row_within (font : Font Rat) (text : String) {style : TextStyle Rat} (hsize : 0 ≤ style.size)
    {row : TextRow Rat} {i : Nat} (h : (row, i) ∈ (measure font text style).rows.zipIdx) :
    row.width = (font.measure row.text style.size).width ∧ row.width ≤ (measure font text style).size.width ∧
      0 ≤ (i : Rat) * (measure font text style).rowHeight ∧
      (i : Rat) * (measure font text style).rowHeight + (font.measure row.text style.size).height ≤
        (measure font text style).size.height := by
  obtain ⟨_, hlast, hget⟩ := List.mem_zipIdx h
  have hmem : row ∈ (measure font text style).rows := hget ▸ List.getElem_mem _
  obtain ⟨hwidth, hheight⟩ := mem_rows_measure hmem
  have hrowHeight := rowHeight_nonneg font text hsize
  have hbelow : ((i + 1 : Nat) : Rat) * (measure font text style).rowHeight ≤ (measure font text style).size.height :=
    mul_le_mul_of_nonneg_right (Nat.cast_le.mpr (by omega)) hrowHeight
  push_cast at hbelow
  exact ⟨hwidth, le_width hmem, mul_nonneg (Nat.cast_nonneg i) hrowHeight, by linarith⟩

theorem draw_enclosed (font : Font Rat) (text : String) {style : TextStyle Rat} (hsize : 0 ≤ style.size)
    {o : Outline Rat} {corner : Point Rat} (hroom : o.Covers corner (measure font text style).size) :
    ∀ call ∈ (measure font text style).draw corner .left, o.Encloses font call := by
  intro call hcall
  obtain ⟨⟨row, i⟩, hrow, rfl⟩ := List.mem_map.mp hcall
  obtain ⟨hwidth, hwidest, habove, hbelow⟩ := row_within font text hsize hrow
  refine ⟨_, _, rfl, hroom.mono ?_⟩
  constructor
  case left => exact le_refl corner.x
  case right => exact add_le_add_right (hwidth ▸ hwidest) _
  case top => exact le_add_of_nonneg_right habove
  case bottom => exact (add_assoc _ _ _).trans_le (add_le_add_right hbelow corner.y)

theorem drawLabel_enclosed (font : Font Rat) (text : String) {style : TextStyle Rat} (hsize : 0 ≤ style.size)
    (background : Color) {o : Outline Rat} {corner : Point Rat}
    (hroom : o.Covers corner (measure font text style).size) :
    ∀ call ∈ (measure font text style).drawLabel corner background .left, o.Encloses font call := by
  unfold drawLabel
  split
  · exact List.forall_mem_nil _
  · exact List.forall_mem_cons.mpr ⟨⟨corner, _, rfl, hroom⟩, draw_enclosed font text hsize hroom⟩

end TextBlock

namespace Shape.Frame

variable {f : Frame Rat} {y : Nat → Rat} {i : Nat} {top bottom : Rat}

theorem length_segmentBounds (f : Frame Rat) (y : Nat → Rat) : (f.segmentBounds y).length = f.segments.length := by
  simp only [segmentBounds, tops, List.length_zip, List.length_append, List.length_drop, List.length_map,
    List.length_singleton]
  omega

theorem getElem?_segmentBounds (h : (f.segmentBounds y)[i]? = some (top, bottom)) :
    (f.tops y)[i]? = some top ∧ (f.tops y)[i + 1]?.getD (f.bottom y) = bottom := by
  obtain ⟨htop, hbottom⟩ := List.getElem?_zip_eq_some.mp h
  refine ⟨htop, ?_⟩
  rw [List.getElem?_append] at hbottom
  split at hbottom
  · rw [List.getElem?_drop, Nat.add_comm] at hbottom
    rw [hbottom, Option.getD_some]
  · rename_i hlast
    rw [List.length_drop] at hlast
    have hnone : (f.tops y)[i + 1]? = none := List.getElem?_eq_none (by omega)
    rw [hnone, Option.getD_none]
    rw [List.getElem?_singleton] at hbottom
    split at hbottom
    · exact Option.some.inj hbottom
    · contradiction

theorem segmentBounds_contiguous {next : Rat × Rat} (h : (f.segmentBounds y)[i]? = some (top, bottom))
    (hnext : (f.segmentBounds y)[i + 1]? = some next) : bottom = next.1 := by
  have hbottom := (getElem?_segmentBounds h).2
  have hstart := (getElem?_segmentBounds hnext).1
  rw [hstart, Option.getD_some] at hbottom
  exact hbottom.symm

theorem mem_draw_of_mem_drawHeader {g : Grid Rat} {header : FrameHeader Rat}
    (h : (header, top) ∈ f.segments.zip (f.tops fun row => (g.point row 0).y)) {call : Call Rat}
    (hcall : call ∈ f.drawHeader (f.edges g).1 top header) : call ∈ f.draw g := by
  unfold draw
  dsimp only
  cases hzip : f.segments.zip (f.tops fun row => (g.point row 0).y) with
  | nil =>
    rw [hzip] at h
    contradiction
  | cons first later =>
    rw [hzip] at h
    refine List.mem_cons_of_mem _ (List.mem_append.mpr ?_)
    cases List.mem_cons.mp h with
    | inl hfirst => exact .inl (hfirst ▸ hcall)
    | inr hlater => exact .inr (List.mem_flatMap.mpr ⟨_, hlater, List.mem_cons_of_mem _ hcall⟩)

theorem drawHeader_enclosed (font : Font Rat) (hpadding : 0 ≤ f.tabPadding) {header : FrameHeader Rat}
    {label message : String} {bold plain : TextStyle Rat} (hbold : 0 ≤ bold.size) (hplain : 0 ≤ plain.size)
    (htab : header.tab = .measure font label bold) (hmessage : header.message = .measure font message plain)
    {o : Outline Rat} {left : Rat} (hleft : o.left ≤ left) (htop : o.top ≤ top)
    (hright : left + (f.tabSize header).width + header.message.size.width + 4 * f.tabPadding ≤ o.right)
    (hbottom : top + (f.tabSize header).height ≤ o.bottom) :
    ∀ call ∈ f.drawHeader left top header, o.Encloses font call := by
  have hwidth : (f.tabSize header).width = header.tab.size.width + 2 * f.tabPadding := by
    rw [← two_eq]
    rfl
  have hheight : (f.tabSize header).height =
      max header.tab.size.height header.message.size.height + 2 * f.tabPadding := by
    rw [← two_eq]
    rfl
  have htabWidth := header.tab.width_nonneg
  have hmessageWidth := header.message.width_nonneg
  have htabHeight := le_max_left header.tab.size.height header.message.size.height
  have hmessageHeight := le_max_right header.tab.size.height header.message.size.height
  have hrect : o.Covers ⟨left, top⟩ (f.tabSize header) := ⟨hleft, by linarith, htop, hbottom⟩
  have hlabel : o.Covers ⟨left + f.tabPadding, top + f.tabPadding⟩ header.tab.size := by
    refine hrect.mono ⟨le_add_of_nonneg_right hpadding, ?_, le_add_of_nonneg_right hpadding, ?_⟩
    · dsimp only
      linarith
    · dsimp only
      linarith
  have hcondition : o.Covers ⟨left + (f.tabSize header).width + f.tabPadding, top + f.tabPadding⟩
      header.message.size := by
    constructor <;> dsimp only <;> linarith
  rw [htab] at hlabel
  rw [hmessage] at hcondition
  refine List.forall_mem_cons.mpr ⟨⟨_, _, rfl, hrect⟩, ?_⟩
  rw [htab, hmessage]
  refine List.forall_mem_append.mpr ⟨?_, ?_⟩
  · exact TextBlock.draw_enclosed font label hbold hlabel
  · exact TextBlock.drawLabel_enclosed font message hplain f.labelFill hcondition

end Shape.Frame

namespace Diagram

variable {ι : Type} [Icon ι Rat]

def segmentBounds (d : Diagram ι) (config : Config Rat) (font : Font Rat) (s : BlockSite) : List (Rat × Rat) :=
  ((d.layout config font).frameAt s).segmentBounds (d.rowY config font)

/-- What is drawn for the header of a segment whose upper edge is given. -/
def headerCalls (d : Diagram ι) (config : Config Rat) (font : Font Rat) (s : BlockSite) (top : Rat)
    (part : Nat × Segment Item) : List (Call Rat) :=
  ((d.layout config font).frameAt s).drawHeader (d.outline config font s).left top
    ((d.layout config font).frameHeader part.1 part.2.heading)

/-- The calls of a header are its tab, at the upper left corner of the segment, and calls that write its label and its
condition. -/
theorem headerCalls_spec (d : Diagram ι) (config : Config Rat) (font : Font Rat) (s : BlockSite) (top : Rat)
    (part : Nat × Segment Item) :
    (∃ size stroke fill, .rect ⟨(d.outline config font s).left, top⟩ size (some stroke) (some fill) ∈
      d.headerCalls config font s top part) ∧
    Call.texts (d.headerCalls config font s top part) = part.2.heading.written := by
  constructor
  · exact ⟨_, _, _, List.mem_cons_self⟩
  · rw [headerCalls, Shape.Frame.texts_drawHeader, Layout.texts_frameHeader]

/-- What fills the rows of a segment: its header, then everything in it. -/
def segmentUses (d : Diagram ι) (config : Config Rat) (font : Font Rat) (part : Nat × Segment Item) :
    List (Nat × RowUse Rat) :=
  (d.layout config font).rowUses part.1 (.header part.2.heading :: Item.entriesAll part.2.body)

omit [Icon ι Rat] in
theorem mem_rows_segmentUses (d : Diagram ι) (config : Config Rat) (font : Font Rat) (part : Nat × Segment Item)
    {row : Nat} : row ∈ (d.segmentUses config font part).map Prod.fst ↔
      part.1 ≤ row ∧ row ≤ part.1 + Item.rowsAll part.2.body := by
  rw [segmentUses, Layout.rows_rowUses, List.length_cons, Item.length_entriesAll, List.mem_range'_1]
  omega

omit [Icon ι Rat] in
theorem segmentUses_subset {d : Diagram ι} (h : d.Ranked) (config : Config Rat) (font : Font Rat) {s : BlockSite}
    (hs : s ∈ d.blocks) {part : Nat × Segment Item} (hpart : part ∈ s.parts) :
    d.segmentUses config font part ⊆ (d.graphic config font).items.flatMap Placed.rowUses := by
  obtain ⟨before, after, hentries, hstart⟩ := Item.runAt_items d.items 2 0 s hs part hpart
  have hperm : ((d.graphic config font).items.flatMap Placed.rowUses).Perm
      ((d.layout config font).rowUses 2 (Item.entriesAll d.items)) := by
    rw [graphic_eq h config font, Layout.rowUses_placements]
    exact Layout.perm_items _ d.items 2 0
  intro use huse
  rw [hperm.mem_iff, hentries, Layout.rowUses_append, Layout.rowUses_append, hstart]
  exact List.mem_append_left _ (List.mem_append_right _ huse)

variable {d : Diagram ι} (h : d.Sound) {config : Config Rat} (font : Font Rat) (hroomy : config.Roomy)

include h hroomy

section Header

variable {s : BlockSite} (hs : s ∈ d.blocks) {header : Shape.FrameHeader Rat}
  (hheader : header ∈ ((d.layout config font).frameAt s).segments) {row : Nat}

include hs hheader

theorem tab_lt_rowY_iff :
    d.rowY config font header.row - (((d.layout config font).frameAt s).tabSize header).height <
      d.rowY config font row ↔ header.row ≤ row := by
  have htab := Layout.tabHeight_pos (l := d.layout config font) hroomy hheader
  constructor
  · intro hlt
    by_contra habove
    have hle := rowY_le_tab h font hroomy hs hheader (Nat.not_le.mp habove)
    linarith [hroomy.blockPadding]
  · intro hbelow
    have hmono := rowY_mono h font hroomy hbelow
    linarith

theorem rowY_lt_tab_iff :
    d.rowY config font row < d.rowY config font header.row -
      (((d.layout config font).frameAt s).tabSize header).height ↔ row < header.row := by
  have htab := Layout.tabHeight_pos (l := d.layout config font) hroomy hheader
  constructor
  · intro hlt
    by_contra hbelow
    have hmono := rowY_mono h font hroomy (Nat.not_lt.mp hbelow)
    linarith
  · intro habove
    have hle := rowY_le_tab h font hroomy hs hheader habove
    linarith [hroomy.blockPadding]

end Header

theorem rowY_lt_bottom_iff {s : BlockSite} (hs : s ∈ d.blocks) {row : Nat} (hrow : row ≤ d.lastRow) :
    d.rowY config font row < (d.outline config font s).bottom ↔ row ≤ s.lastRow := by
  constructor
  · intro hlt
    by_contra hbelow
    have hle := bottom_le_rowY h font hroomy hs (Nat.not_le.mp hbelow) hrow
    linarith [hroomy.blockPadding]
  · intro habove
    have hmono := rowY_mono h font hroomy habove
    have hclosing : (1 : Rat) ≤ s.closing := by exact_mod_cast s.closing_pos
    have hroom := mul_le_mul_of_nonneg_right hclosing hroomy.blockPadding.le
    rw [bottom_outline]
    linarith [hroomy.blockPadding]

omit h hroomy in
theorem getElem?_tops (s : BlockSite) (i : Nat) :
    (((d.layout config font).frameAt s).tops (d.rowY config font))[i]? = s.parts[i]?.map fun part =>
      d.rowY config font part.1 - (((d.layout config font).frameAt s).tabSize
        ((d.layout config font).frameHeader part.1 part.2.heading)).height := by
  have hsegments : ((d.layout config font).frameAt s).segments = (d.layout config font).headers s.parts := rfl
  rw [Shape.Frame.tops, hsegments, Layout.headers, List.map_map, List.getElem?_map]
  rfl

omit hroomy in
theorem mem_constraints {s : BlockSite} (hs : s ∈ d.blocks) {header : Shape.FrameHeader Rat}
    (hheader : header ∈ ((d.layout config font).frameAt s).segments) {c : Constraint Rat}
    (hc : c ∈ ((d.layout config font).frameAt s).headerConstraints d.lastCol header) :
    c ∈ (d.graphic config font).constraints := by
  obtain ⟨levels, hframe⟩ := Layout.exists_mem_reserveMargins
    (List.mem_map_of_mem (f := (d.layout config font).placedFrame) hs)
  have hplaced := List.mem_append_right ((d.layout config font).unframed d)
    (List.mem_map_of_mem (f := Layout.placeFrame) hframe)
  rw [← Layout.placements_eq] at hplaced
  rw [graphic_eq h.ranked config font]
  refine List.mem_flatMap.mpr ⟨_, hplaced, ?_⟩
  exact List.mem_append_left _ (List.mem_append_right _ (List.mem_flatMap.mpr ⟨header, hheader, hc⟩))

omit h hroomy in
theorem left_outline (s : BlockSite) : (d.outline config font s).left =
    ((d.graphic config font).resolve.1.grid.point 0 0).x + s.depth * config.blockInset := rfl

omit hroomy in
theorem right_outline (s : BlockSite) : (d.outline config font s).right =
    ((d.graphic config font).resolve.1.grid.point 0 d.lastCol).x - s.depth * config.blockInset := by
  rw [← cols_graphic h font, ← Graphic.cols_resolve]
  rfl

theorem span_header_le {s : BlockSite} (hs : s ∈ d.blocks) {header : Shape.FrameHeader Rat}
    (hheader : header ∈ ((d.layout config font).frameAt s).segments) :
    2 * s.depth * config.blockInset + (((d.layout config font).frameAt s).tabSize header).width +
        header.message.size.width + 4 * config.blockTabPadding ≤
      ((d.graphic config font).resolve.1.grid.point 0 d.lastCol).x -
        ((d.graphic config font).resolve.1.grid.point 0 0).x := by
  have hspan : _ ∈ ((d.layout config font).frameAt s).headerConstraints d.lastCol header :=
    List.mem_cons_of_mem _ (List.mem_cons_of_mem _ List.mem_cons_self)
  have hreach := Graphic.reach_cols (fits_graphic h hroomy font)
  have hholds := hreach.holds _ (List.mem_map_of_mem (mem_constraints h font hs hheader hspan))
  have hwidth := hholds (.inl (Nat.succ_ne_zero _).symm)
  have hfour : (4.0 : Rat) = 4 := by norm_num
  have hsub := Gaps.position_sub (d.graphic config font).margin (d.graphic config font).colGaps
    (Nat.zero_le d.lastCol)
  rw [Graphic.point_resolve, Graphic.point_resolve, cols_graphic h font, Nat.min_self, Nat.zero_min d.lastCol,
    ← two_eq, ← hfour]
  refine hwidth.trans_eq ?_
  rw [hsub, Grid.between, Nat.zero_min, Nat.zero_max]

theorem header_width_le {s : BlockSite} (hs : s ∈ d.blocks) {header : Shape.FrameHeader Rat}
    (hheader : header ∈ ((d.layout config font).frameAt s).segments) :
    (d.outline config font s).left + (((d.layout config font).frameAt s).tabSize header).width +
      header.message.size.width + 4 * config.blockTabPadding ≤ (d.outline config font s).right := by
  have hspan := span_header_le h font hroomy hs hheader
  rw [left_outline, right_outline h]
  linarith

section Segment

variable {s : BlockSite} (hs : s ∈ d.blocks) {i : Nat} {part : Nat × Segment Item} (hpart : s.parts[i]? = some part)
  {top bottom : Rat} (hbounds : (d.segmentBounds config font s)[i]? = some (top, bottom))

include hs hpart hbounds

omit h hroomy hs in
theorem top_segment : top = d.rowY config font part.1 - (((d.layout config font).frameAt s).tabSize
    ((d.layout config font).frameHeader part.1 part.2.heading)).height := by
  have htop := (Shape.Frame.getElem?_segmentBounds hbounds).1
  rw [getElem?_tops, hpart] at htop
  exact (Option.some.inj htop).symm

theorem rowY_lt_bottom_segment {row : Nat} (hrow : row ≤ d.lastRow) :
    d.rowY config font row < bottom ↔ row ≤ part.1 + Item.rowsAll part.2.body := by
  obtain ⟨hnext, hlast⟩ := Item.getElem?_parts hpart
  have hbottom := (Shape.Frame.getElem?_segmentBounds hbounds).2
  rw [getElem?_tops] at hbottom
  cases hlater : s.parts[i + 1]? with
  | none =>
    have hlength : s.parts.length = s.segments.length := Item.length_parts s.row s.segments
    have hwithin := (List.getElem?_eq_some_iff.mp hpart).1
    have hend := hlast (by have hpast := List.getElem?_eq_none_iff.mp hlater; omega)
    have hlastRow := BlockSite.lastRow_succ (h.filled s hs)
    have hframe : (d.outline config font s).bottom = bottom := by
      rw [hlater] at hbottom
      exact hbottom
    rw [← hframe, rowY_lt_bottom_iff h font hroomy hs hrow]
    omega
  | some next =>
    have hstart := hnext hlater
    rw [hlater] at hbottom
    have hheader := (d.layout config font).frameHeader_mem (List.mem_of_getElem? hlater)
    have hrows : row < next.1 ↔ row ≤ part.1 + Item.rowsAll part.2.body := by omega
    rw [← hbottom]
    exact (rowY_lt_tab_iff h font hroomy hs hheader).trans hrows

theorem rows_segment {row : Nat} (hrow : row ≤ d.lastRow) :
    (top < d.rowY config font row ∧ d.rowY config font row < bottom) ↔
      row ∈ (d.segmentUses config font part).map Prod.fst := by
  have hheader := (d.layout config font).frameHeader_mem (List.mem_of_getElem? hpart)
  rw [mem_rows_segmentUses, rowY_lt_bottom_segment h font hroomy hs hpart hbounds hrow,
    top_segment font hpart hbounds]
  exact and_congr_left' (tab_lt_rowY_iff h font hroomy hs hheader)

omit hroomy in
theorem headerCalls_mem : ∀ call ∈ d.headerCalls config font s top part, call ∈ (d.picture config font).calls := by
  intro call hcall
  have htop := (Shape.Frame.getElem?_segmentBounds hbounds).1
  have hsegment : ((d.layout config font).headers s.parts)[i]? =
      some ((d.layout config font).frameHeader part.1 part.2.heading) := by
    rw [Layout.headers, List.getElem?_map, hpart]
    rfl
  have hzip : (((d.layout config font).frameAt s).segments.zip
      (((d.layout config font).frameAt s).tops (d.rowY config font)))[i]? = some (_, top) :=
    List.getElem?_zip_eq_some.mpr ⟨hsegment, htop⟩
  exact mem_calls_of_mem_frame h.ranked hs
    (Shape.Frame.mem_draw_of_mem_drawHeader (List.mem_of_getElem? hzip) hcall)

theorem tab_le_bottom : top + (((d.layout config font).frameAt s).tabSize
    ((d.layout config font).frameHeader part.1 part.2.heading)).height ≤ bottom := by
  have hheader := (d.layout config font).frameHeader_mem (List.mem_of_getElem? hpart)
  have hrow : part.1 ≤ d.lastRow :=
    (Layout.row_le_of_mem_headers hheader).trans (lastRow_lt_lastRow h hs).le
  have hbelow := (rowY_lt_bottom_segment h font hroomy hs hpart hbounds hrow).mpr (Nat.le_add_right _ _)
  rw [top_segment font hpart hbounds, sub_add_cancel]
  exact hbelow.le

theorem headerCalls_enclosed : ∀ call ∈ d.headerCalls config font s top part,
    ({ d.outline config font s with top, bottom } : Outline Rat).Encloses font call := by
  have hheader := (d.layout config font).frameHeader_mem (List.mem_of_getElem? hpart)
  refine Shape.Frame.drawHeader_enclosed (f := (d.layout config font).frameAt s) font hroomy.blockTabPadding.le
    hroomy.fontSize hroomy.fontSize rfl rfl (le_refl _) (le_refl top) ?_ ?_
  · exact header_width_le h font hroomy hs hheader
  · exact tab_le_bottom h font hroomy hs hpart hbounds

end Segment

/-- A segment between two edges: what fills its rows has been placed, these rows are exactly those between the
edges, and its header, a tab with a label and a condition, is drawn between them, inside of the frame. -/
structure SegmentWithin (d : Diagram ι) (config : Config Rat) (font : Font Rat) (s : BlockSite)
    (part : Nat × Segment Item) (top bottom : Rat) : Prop where
  placed : d.segmentUses config font part ⊆ (d.graphic config font).items.flatMap Placed.rowUses
  rows : ∀ row ≤ (d.graphic config font).resolve.1.grid.rows,
    (top < d.rowY config font row ∧ d.rowY config font row < bottom) ↔
      row ∈ (d.segmentUses config font part).map Prod.fst
  tab : ∃ size stroke fill, .rect ⟨(d.outline config font s).left, top⟩ size (some stroke) (some fill) ∈
    d.headerCalls config font s top part
  texts : Call.texts (d.headerCalls config font s top part) = part.2.heading.written
  drawn : ∀ call ∈ d.headerCalls config font s top part, call ∈ (d.picture config font).calls
  header : ∀ call ∈ d.headerCalls config font s top part,
    ({ d.outline config font s with top, bottom } : Outline Rat).Encloses font call

end Diagram

namespace Diagram

/-- The segments of a block follow each other without a gap. Each one encloses exactly the rows of its header and of
what is placed in it, and its tab and its condition are drawn inside of it. -/
theorem segments_enclose {text : String} {d : Diagram BuiltinIcon} (hload : load text = .ok d) (font : Font Rat)
    {s : BlockSite} (hs : s ∈ d.blocks) :
    (d.segmentBounds .standard font s).length = s.parts.length ∧
    (∀ (i : Nat) (bounds next : Rat × Rat), (d.segmentBounds .standard font s)[i]? = some bounds →
      (d.segmentBounds .standard font s)[i + 1]? = some next → bounds.2 = next.1) ∧
    ∀ (i : Nat) (part : Nat × Segment Item) (bounds : Rat × Rat), s.parts[i]? = some part →
      (d.segmentBounds .standard font s)[i]? = some bounds →
        d.SegmentWithin .standard font s part bounds.1 bounds.2 := by
  have hsound := sound_of_load hload
  refine ⟨?_, ?_, ?_⟩
  · rw [segmentBounds, Shape.Frame.length_segmentBounds]
    exact List.length_map _
  · exact fun i bounds next => Shape.Frame.segmentBounds_contiguous
  · intro i part bounds hpart hbounds
    have hlast : (d.graphic .standard font).resolve.1.grid.rows = d.lastRow := by
      rw [Graphic.rows_resolve, rows_graphic hsound font]
    exact {
      placed := segmentUses_subset hsound.ranked .standard font hs (List.mem_of_getElem? hpart)
      rows := fun row hrow => rows_segment hsound font Config.roomy_standard hs hpart hbounds (hlast ▸ hrow)
      tab := (d.headerCalls_spec .standard font s bounds.1 part).1
      texts := (d.headerCalls_spec .standard font s bounds.1 part).2
      drawn := headerCalls_mem hsound font hs hpart hbounds
      header := headerCalls_enclosed hsound font Config.roomy_standard hs hpart hbounds }

def segmentSample : String := "alt: x\na->b\nloop\nb->a\nend\nelse: y\na->b\nend"

theorem segments_enclose_segmentSample :
    ∃ (d : Diagram BuiltinIcon) (s : BlockSite), load segmentSample = .ok d ∧ s ∈ d.blocks ∧
      ∃ (first second : Segment Item) (top cut bottom : Rat),
        d.segmentBounds .standard .plain s = [(top, cut), (cut, bottom)] ∧
        d.SegmentWithin .standard .plain s (2, first) top cut ∧
        d.SegmentWithin .standard .plain s (6, second) cut bottom := by
  have hblocks : ((load segmentSample).toOption.map fun d => d.blocks.map fun s => s.parts.map Prod.fst) =
      some [[2, 6], [4]] := by
    decide +kernel
  obtain ⟨d, hload, hblocks⟩ := toOption_map_eq_some.mp hblocks
  obtain ⟨s, later, hsites, hparts, _⟩ := List.map_eq_cons_iff.mp hblocks
  obtain ⟨part, parts, hs, hfirst, hrest⟩ := List.map_eq_cons_iff.mp hparts
  obtain ⟨next, rest, rfl, hsecond, hnone⟩ := List.map_eq_cons_iff.mp hrest
  obtain rfl := List.map_eq_nil_iff.mp hnone
  have hmem : s ∈ d.blocks := hsites ▸ List.mem_cons_self
  obtain ⟨hlength, hcontiguous, hwithin⟩ := segments_enclose hload .plain hmem
  rw [hs] at hlength hwithin
  obtain ⟨⟨top, cut⟩, ⟨start, bottom⟩, hbounds⟩ := List.length_eq_two.mp hlength
  rw [hbounds] at hcontiguous hwithin
  obtain rfl : cut = start := hcontiguous 0 _ _ rfl rfl
  obtain ⟨row, first⟩ := part
  obtain ⟨nextRow, second⟩ := next
  obtain rfl : row = 2 := hfirst
  obtain rfl : nextRow = 6 := hsecond
  exact ⟨d, s, hload, hmem, first, second, top, cut, bottom, hbounds, hwithin 0 _ _ rfl rfl, hwithin 1 _ _ rfl rfl⟩

end Diagram

end SequenceChart
