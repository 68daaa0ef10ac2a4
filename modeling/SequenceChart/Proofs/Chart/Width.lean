import SequenceChart.Proofs.Chart.Ample
import SequenceChart.Proofs.Grid.Columns

/-! Room between the margins. Each shape keeps between the margins of a picture, as its own constraints ask for the
room that it takes on either side. -/

namespace SequenceChart

theorem DrawnAcross.mono {font : Font Rat} {left right innerLeft innerRight : Rat} {calls : List (Call Rat)}
    (h : DrawnAcross font innerLeft innerRight calls) (hleft : left ≤ innerLeft) (hright : innerRight ≤ right) :
    DrawnAcross font left right calls := by
  intro call hcall p hp
  obtain ⟨hfrom, hto⟩ := h call hcall p hp
  exact ⟨hleft.trans hfrom, hto.trans hright⟩

theorem middle_within {left right first second width : Rat} (hfirst : left ≤ first ∧ first ≤ right)
    (hsecond : left ≤ second ∧ second ≤ right) (hwidth : width ≤ |first - second|) :
    left ≤ (first + second - width) / 2 ∧ (first + second + width) / 2 ≤ right := by
  cases abs_cases (first - second) with
  | inl h => constructor <;> linarith
  | inr h => constructor <;> linarith

namespace Shape

variable {font : Font Rat} (hfont : font.Nonneg) {g : Grid Rat} {left right : Rat} {pos : GridPos}

section Title

include hfont

theorem Title.across {t : Title Rat} (h : t.text.MeasuredBy font) (hcol : pos.col ≠ g.cols)
    (hprovides : g.Provides left right (t.constraints pos g.cols)) :
    DrawnAcross font left right (t.draw g (g.point pos.row pos.col)) := by
  have hmem : _ ∈ t.constraints pos g.cols := List.mem_cons_of_mem _ List.mem_cons_self
  obtain ⟨hfirst, hlast⟩ := hprovides.span_within hmem
  obtain ⟨hleft, hright⟩ := middle_within hfirst hlast (hprovides.spans hmem hcol)
  have hx := hprovides.aligned pos.row pos.col
  refine (bounds_draw hfont h g _).across ?_ ?_ <;> dsimp only [extent, Outline.ofBox] <;> rw [hx]
  · exact hleft
  · unfold Grid.colX at hright ⊢
    linarith

end Title

theorem Lifeline.across {l : Lifeline Rat} (hcol : l.col = pos.col)
    (hprovides : g.Provides left right (l.constraints pos)) :
    DrawnAcross font left right (l.draw g (g.point pos.row pos.col)) := by
  have hwithin := hprovides.floor_within List.mem_cons_self
  refine (bounds_draw font l g _).across ?_ ?_ <;> dsimp only [extent] <;>
    rw [hcol, hprovides.aligned, hprovides.aligned]
  · rw [min_self]
    exact hwithin.1
  · rw [max_self]
    exact hwithin.2

theorem ActorBox.extent_beside {ι : Type} [Icon ι Rat] {b : ActorBox ι Rat}
    (hprovides : g.Provides left right (b.constraints pos)) :
    left + b.gap / 2 ≤ (b.extent (g.point pos.row pos.col)).left ∧
      (b.extent (g.point pos.row pos.col)).right + b.gap / 2 ≤ right := by
  obtain ⟨hleft, hright⟩ := hprovides.floors List.mem_cons_self
  have hx := hprovides.aligned pos.row pos.col
  constructor <;> dsimp only [extent, Outline.ofBox] <;> rw [hx]
  · split at hleft <;> dsimp only at hleft <;> linarith
  · split at hright <;> dsimp only at hright <;> linarith

include hfont

theorem ActorBox.across {ι : Type} [Icon ι Rat] [Icon.Contained ι] {b : ActorBox ι Rat}
    (h : b.label.MeasuredBy font) (hpadding : Icon.overhang ≤ b.padding) (hgap : Icon.overhang ≤ b.iconGap)
    (hfree : 0 ≤ b.gap) (hprovides : g.Provides left right (b.constraints pos)) :
    DrawnAcross font left right (b.draw (g.point pos.row pos.col)) := by
  obtain ⟨hleft, hright⟩ := extent_beside hprovides
  exact (bounds_draw hfont h hpadding hgap _).across (by linarith) (by linarith)

namespace Message

variable {m : Message Rat} (h : m.label.MeasuredBy font)

include h

/-- A loop and its label keep to the right of the column of their actor, and leave their padding free on the right. -/
theorem beside_loop (hloop : m.isLoop = true) (hwidth : 8 ≤ m.loop.width) (hheight : 0 ≤ m.loop.height)
    (hgap : 0 ≤ m.labelGap) (hprovides : g.Provides left right (m.constraints pos)) :
    DrawnAcross font (g.colX pos.col) (right - m.padding) (m.draw g (g.point pos.row pos.col)) := by
  unfold constraints at hprovides
  rw [hloop] at hprovides
  unfold draw
  rw [hloop]
  obtain ⟨-, hright⟩ := hprovides.adds List.mem_cons_self
  have hx := hprovides.aligned pos.row pos.col
  refine (bounds_drawLoop hfont h hwidth hheight hgap _).across ?_ ?_ <;> dsimp only [loopExtent] <;> rw [hx]
  dsimp only [Sides.horizontal] at hright
  linarith

theorem across_loop (hloop : m.isLoop = true) (hwidth : 8 ≤ m.loop.width) (hheight : 0 ≤ m.loop.height)
    (hgap : 0 ≤ m.labelGap) (hpadding : 0 ≤ m.padding) (hprovides : g.Provides left right (m.constraints pos)) :
    DrawnAcross font left right (m.draw g (g.point pos.row pos.col)) := by
  have hwithin : left ≤ g.colX pos.col := by
    unfold constraints at hprovides
    rw [hloop] at hprovides
    exact (hprovides.add_within List.mem_cons_self).1
  exact (beside_loop hfont h hloop hwidth hheight hgap hprovides).mono hwithin (sub_le_self _ hpadding)

omit hfont h in
theorem headBase_within {first second : Rat} (hfirst : left ≤ first ∧ first ≤ right)
    (hsecond : left ≤ second ∧ second ≤ right) (hlong : 8 ≤ |first - second|) :
    left ≤ headBase second (first ≤ second) ∧ headBase second (first ≤ second) ≤ right := by
  unfold headBase
  by_cases hle : first ≤ second
  · rw [abs_of_nonpos (by linarith)] at hlong
    simp only [hle, decide_true, if_true]
    constructor <;> linarith
  · rw [abs_of_nonneg (by linarith)] at hlong
    simp only [hle, decide_false, Bool.false_eq_true, if_false]
    constructor <;> linarith

theorem across_arrow (hline : m.isLoop = false) (hcol : m.fromCol = pos.col) (hgap : 0 ≤ m.labelGap)
    (hpadding : 4 ≤ m.padding) (hprovides : g.Provides left right (m.constraints pos)) :
    DrawnAcross font left right (m.draw g (g.point pos.row pos.col)) := by
  have hlabel := m.label.width_nonneg
  have hne : pos.col ≠ m.toCol := hcol ▸ of_decide_eq_false hline
  unfold constraints at hprovides
  rw [hline] at hprovides
  unfold draw
  rw [hline]
  have hspan := hprovides.spans List.mem_cons_self hne
  dsimp only at hspan
  obtain ⟨hfrom, hto⟩ := hprovides.span_within List.mem_cons_self
  have hhead := headBase_within hfrom hto (by linarith)
  have hwide : m.label.size.width ≤ |g.colX pos.col - g.colX m.toCol| := by linarith
  have hmiddle := middle_within hfrom hto hwide
  have hx := hprovides.aligned pos.row pos.col
  refine (bounds_drawArrow hfont h hgap _ _).across ?_ ?_ <;> dsimp only [arrowExtent] <;> rw [hx]
  · refine le_min (le_min hfrom.1 hto.1) (le_min hhead.1 (hmiddle.1.trans_eq ?_))
    exact sub_div _ _ _
  · refine max_le (max_le hfrom.2 hto.2) (max_le hhead.2 ((add_div _ _ _).symm.trans_le hmiddle.2))

end Message

namespace NoteBox

variable {n : NoteBox Rat}

omit hfont in
theorem edges_over_two (halign : n.alignment = .over) {first last : Rat}
    (hwide : n.size.width - 2 * n.offset ≤ last - first) {x other : Rat} (hmin : min x other = first)
    (hmax : max x other = last) : n.edges x (some other) = (first - n.offset, last + n.offset) := by
  have hextra : max (n.size.width - (last - first + 2 * n.offset)) 0 / 2 = 0 := by
    rw [max_eq_right (by linarith), zero_div]
  unfold edges
  rw [halign]
  dsimp only
  rw [hmin, hmax, two_eq, Gaps.zero_eq, hextra, sub_zero, add_zero]

omit hfont in
theorem edges_beside (halone : n.alignment = .over → n.otherCol = none)
    (hprovides : g.Provides left right (n.sideConstraints pos)) :
    left + n.offset ≤ (n.edges (g.colX pos.col) (n.otherCol.map g.colX)).1 ∧
      (n.edges (g.colX pos.col) (n.otherCol.map g.colX)).2 + n.offset ≤ right := by
  unfold sideConstraints at hprovides
  dsimp only at hprovides
  cases halign : n.alignment with
  | left =>
    rw [halign] at hprovides
    have hwithin := hprovides.floor_within List.mem_cons_self
    obtain ⟨hleft, -⟩ := hprovides.floors List.mem_cons_self
    unfold edges
    rw [halign]
    dsimp only [Sides.horizontal] at hleft ⊢
    constructor <;> linarith
  | right =>
    rw [halign] at hprovides
    have hwithin := hprovides.floor_within List.mem_cons_self
    obtain ⟨-, hright⟩ := hprovides.floors List.mem_cons_self
    unfold edges
    rw [halign]
    dsimp only [Sides.horizontal] at hright ⊢
    constructor <;> linarith
  | _ =>
    rw [halign, halone halign] at hprovides
    obtain ⟨hleft, hright⟩ := hprovides.floors List.mem_cons_self
    unfold edges
    rw [halign, halone halign]
    dsimp only [Sides.horizontal, Option.map_none] at hleft hright ⊢
    constructor <;> linarith

omit hfont in
theorem edges_within (hoffset : 0 ≤ n.offset) (hother : ∀ other ∈ n.otherCol, other ≠ pos.col)
    (hprovides : g.Provides left right (n.sideConstraints pos)) :
    left ≤ (n.edges (g.colX pos.col) (n.otherCol.map g.colX)).1 ∧
      (n.edges (g.colX pos.col) (n.otherCol.map g.colX)).2 ≤ right := by
  by_cases halone : n.alignment = .over → n.otherCol = none
  · obtain ⟨hleft, hright⟩ := edges_beside halone hprovides
    exact ⟨(le_add_of_nonneg_right hoffset).trans hleft, (le_add_of_nonneg_right hoffset).trans hright⟩
  · obtain ⟨halign, hsecond⟩ := Classical.not_imp.mp halone
    obtain ⟨other, hcol⟩ := Option.ne_none_iff_exists'.mp hsecond
    unfold sideConstraints at hprovides
    rw [halign, hcol] at hprovides
    have hapart := hother other hcol
    have hne : min pos.col other ≠ max pos.col other := by omega
    have hfirst := (hprovides.floors List.mem_cons_self).1
    have hlast := (hprovides.floors (List.mem_cons_of_mem _ List.mem_cons_self)).2
    have hspan := hprovides.spans (List.mem_cons_of_mem _ (List.mem_cons_of_mem _ List.mem_cons_self)) hne
    have hle := hprovides.ordered (min_le_max (a := pos.col) (b := other))
    dsimp only [Sides.horizontal] at hfirst hlast hspan
    rw [abs_sub_comm, abs_of_nonneg (sub_nonneg.mpr hle)] at hspan
    rw [hcol, Option.map_some, edges_over_two halign (by linarith) (hprovides.ordered.map_min).symm
      (hprovides.ordered.map_max).symm]
    dsimp only
    constructor <;> linarith

theorem across (h : n.text.MeasuredBy font) (hpadding : 0 ≤ n.padding) (hfold : 0 ≤ n.fold)
    (hoffset : 0 ≤ n.offset) (hother : ∀ other ∈ n.otherCol, other ≠ pos.col)
    (hprovides : g.Provides left right (n.constraints pos)) :
    DrawnAcross font left right (n.draw g (g.point pos.row pos.col)) := by
  have hedges := edges_within hoffset hother (hprovides.subset fun _ => List.mem_cons_of_mem _)
  rw [← hprovides.aligned pos.row pos.col] at hedges
  exact (bounds_draw hfont h hpadding hfold g _).across hedges.1 hedges.2

end NoteBox

theorem Separator.across {s : Separator Rat} (h : s.text.MeasuredBy font) (hpadding : 0 ≤ s.padding)
    (hcol : pos.col ≠ g.cols) (hprovides : g.Provides left right (s.constraints pos g.cols)) :
    DrawnAcross font left right (s.draw g (g.point pos.row pos.col)) := by
  have hmem : _ ∈ s.constraints pos g.cols := List.mem_cons_of_mem _ List.mem_cons_self
  have hspan := hprovides.spans hmem hcol
  dsimp only at hspan
  obtain ⟨hfirst, hlast⟩ := hprovides.span_within hmem
  have hwide : s.text.size.width + 2 * s.padding ≤ |g.colX pos.col - g.colX g.cols| := by linarith
  obtain ⟨hleft, hright⟩ := middle_within hfirst hlast hwide
  have hx := hprovides.aligned pos.row pos.col
  refine (bounds_draw hfont h hpadding g _).across ?_ ?_ <;> dsimp only [extent] <;> rw [hx]
  · refine le_min (le_min hfirst.1 hlast.1) (hleft.trans_eq ?_)
    unfold Grid.colX
    ring
  · refine max_le (max_le hfirst.2 hlast.2) (Eq.trans_le ?_ hright)
    unfold Grid.colX
    ring

theorem Frame.across {f : Frame Rat}
    (hmeasured : ∀ header ∈ f.segments, header.tab.MeasuredBy font ∧ header.message.MeasuredBy font)
    (hpadding : 0 ≤ f.tabPadding) (hinset : 0 ≤ f.inset) (hcols : g.cols ≠ 0)
    (hprovides : g.Provides left right (f.constraints pos g.cols)) : DrawnAcross font left right (f.draw g) := by
  have hshift : 0 ≤ (f.depth : Rat) * f.inset := mul_nonneg (Nat.cast_nonneg _) hinset
  -- The span is on the row of the header, but all rows share their columns.
  have hmem : ∀ header ∈ f.segments, _ ∈ f.constraints pos g.cols := fun header hheader =>
    List.mem_append_left _ (List.mem_append_right _ (List.mem_flatMap.mpr
      ⟨header, hheader, List.mem_cons_of_mem _ (List.mem_cons_of_mem _ List.mem_cons_self)⟩))
  have hroom : ∀ header ∈ f.segments, f.HasRoom (f.edges g).1 (f.edges g).2 header := by
    intro header hheader
    have hspan := hprovides.spans (hmem header hheader) hcols.symm
    have hle := hprovides.ordered (Nat.zero_le g.cols)
    rw [abs_sub_comm, abs_of_nonneg (sub_nonneg.mpr hle)] at hspan
    unfold HasRoom edges
    unfold Grid.colX at hspan
    dsimp only at hspan ⊢
    linarith
  cases hsegments : f.segments with
  | nil =>
    unfold draw
    rw [hsegments]
    exact List.forall_mem_nil _
  | cons header later =>
    obtain ⟨hfirst, hlast⟩ := hprovides.span_within (hmem header (hsegments ▸ List.mem_cons_self))
    refine (across_draw hfont hmeasured hpadding g hroom).mono ?_ ?_
    · exact hfirst.1.trans (le_add_of_nonneg_right hshift)
    · exact (sub_le_self _ hshift).trans hlast.2

end Shape

namespace Layout

variable {ι : Type} [Icon ι Rat] [Icon.Contained ι] {l : Layout Rat} (hample : l.config.Ample)
  (hfont : l.font.Nonneg) {g : Grid Rat} {left right : Rat}

include hample hfont

omit [Icon ι Rat] [Icon.Contained ι] in
theorem across_message (a : Action) {pos : GridPos} (hcol : pos.col = l.col a.sender)
    (hprovides : g.Provides left right ((l.message a).constraints pos)) :
    DrawnAcross l.font left right ((l.message a).draw g (g.point pos.row pos.col)) := by
  have hlabel : (l.message a).label.MeasuredBy l.font := l.measuredBy_text a.message hample.fontSize _ _
  cases hloop : (l.message a).isLoop with
  | false =>
    exact Shape.Message.across_arrow hfont hlabel hloop hcol.symm hample.labelGap hample.headLength hprovides
  | true =>
    exact Shape.Message.across_loop hfont hlabel hloop hample.loopWidth hample.loopHeight hample.labelGap
      hample.messagePadding hprovides

/-- Wherever a shape stands, it keeps between two edges if the columns provide for it there. -/
theorem across_stands {d : Diagram ι} {placed : Placed (Shape ι Rat)} (h : l.Stands d placed) (hcols : g.cols ≠ 0)
    (hprovides : g.Provides left right (placed.item.constraints placed.pos g.cols)) :
    DrawnAcross l.font left right (placed.item.draw g (g.point placed.pos.row placed.pos.col)) := by
  cases h with
  | @actorBox actor hactor footer =>
    have hlabel := l.measuredBy_text actor.label hample.fontSize l.config.style.actorText false
    exact Shape.ActorBox.across hfont hlabel hample.actorPadding hample.iconGap hample.actorGap hprovides
  | lifeline hactor => exact Shape.Lifeline.across rfl hprovides
  | @title title htitle =>
    have htext := l.measuredBy_text title hample.titleFontSize l.config.style.actorText true
    exact Shape.Title.across hfont htext hcols.symm hprovides
  | message ha => exact across_message hample hfont _ rfl hprovides
  | @note n row hn =>
    have htext := l.measuredBy_text n.message hample.fontSize l.config.style.noteText false
    refine Shape.NoteBox.across hfont htext hample.notePadding hample.noteFold hample.noteOffset ?_ hprovides
    exact fun other hother => of_decide_eq_true (Option.filter_eq_some_iff.mp hother).2
  | @separator divider row hdivider =>
    have htext := l.measuredBy_text (divider.message.getD "") hample.fontSize l.config.style.messageText false
    exact Shape.Separator.across hfont htext hample.dividerPadding hcols.symm hprovides
  | @frame s hs levels =>
    refine Shape.Frame.across hfont ?_ hample.blockTabPadding.le hample.blockInset.le hcols hprovides
    intro header hheader
    obtain ⟨part, _, rfl⟩ := List.mem_map.mp hheader
    exact ⟨l.measuredBy_text _ hample.fontSize _ _, l.measuredBy_text _ hample.fontSize _ _⟩

end Layout

namespace Diagram

theorem across_picture {ι : Type} [Icon ι Rat] [Icon.Contained ι] {d : Diagram ι} (h : d.Sound) {config : Config Rat}
    (hample : config.Ample) {font : Font Rat} (hfont : font.Nonneg) :
    DrawnAcross font config.margin ((d.picture config font).size.width - config.margin)
      (d.picture config font).calls := by
  have hitems : (d.graphic config font).items = (d.layout config font).placements d := by
    rw [graphic_eq h.ranked config font]
  have hmargin : (d.graphic config font).margin = config.margin := by rw [graphic_eq h.ranked config font]; rfl
  have hprovides := Graphic.provides (fits_graphic h hample.toRoomy font)
  have hcols : (d.graphic config font).resolve.1.grid.cols = d.lastCol := by
    rw [Graphic.cols_resolve, cols_graphic h font]
  rw [hmargin] at hprovides
  have hplaced : ∀ placed ∈ (d.graphic config font).items,
      DrawnAcross font config.margin ((d.picture config font).size.width - config.margin)
        (placed.item.draw (d.graphic config font).resolve.1.grid
          ((d.graphic config font).resolve.1.grid.point placed.pos.row placed.pos.col)) := by
    intro placed hplaced
    refine Layout.across_stands (l := d.layout config font) hample hfont
      (Layout.stands_of_mem (hitems ▸ hplaced)) (hcols.trans_ne (Nat.succ_ne_zero _)) (hprovides.subset ?_)
    rw [Graphic.cols_resolve]
    exact fun c hc => List.mem_flatMap.mpr ⟨placed, hplaced, hc⟩
  have hcalls : (d.picture config font).calls = .setSize (d.picture config font).size ::
      ((d.graphic config font).items.flatMap (fun placed =>
        placed.item.draw (d.graphic config font).resolve.1.grid
          ((d.graphic config font).resolve.1.grid.point placed.pos.row placed.pos.col)) ++ [.close]) := rfl
  rw [hcalls]
  refine List.forall_mem_cons.mpr ⟨List.forall_mem_nil _, List.forall_mem_append.mpr ⟨?_, ?_⟩⟩
  · exact List.forall_mem_flatMap.mpr hplaced
  · exact List.forall_mem_singleton.mpr (List.forall_mem_nil _)

/-- Nothing of a chart is drawn on the margins at its left and at its right, whatever its instructions ask for. -/
theorem across_margins {text : String} {d : Diagram BuiltinIcon} (hload : load text = .ok d)
    (settings : List Instruction) {font : Font Rat} (hfont : font.Nonneg) :
    DrawnAcross font (Config.standard.withInstructions settings : Config Rat).margin
      ((d.picture (Config.standard.withInstructions settings) font).size.width -
        (Config.standard.withInstructions settings : Config Rat).margin)
      (d.picture (Config.standard.withInstructions settings) font).calls :=
  across_picture (sound_of_load hload) (Config.instructed_withInstructions settings).ample hfont

def marginSample : String :=
  ".left->a: in\nb->b: wide\nalt: x\nloop\nb->.right\nend\nend\nnote left of .left: l\nnote over a, b: m"

theorem across_margins_marginSample :
    ∃ d : Diagram BuiltinIcon, load marginSample = .ok d ∧ (Font.plain : Font Rat).Nonneg ∧
      DrawnAcross .plain 3
        ((d.picture (Config.standard.withInstructions [⟨"margin", "3"⟩]) .plain).size.width - 3)
        (d.picture (Config.standard.withInstructions [⟨"margin", "3"⟩]) .plain).calls := by
  have hok : (load marginSample).isOk := by decide +kernel
  obtain ⟨d, hload⟩ := isOk_iff.mp hok
  have hmargin : (Config.standard.withInstructions [⟨"margin", "3"⟩] : Config Rat).margin = 3 := by decide +kernel
  have hfont := Font.nonneg_plain
  have hdrawn := across_margins hload [⟨"margin", "3"⟩] hfont
  rw [hmargin] at hdrawn
  exact ⟨d, hload, hfont, hdrawn⟩

end Diagram

end SequenceChart
