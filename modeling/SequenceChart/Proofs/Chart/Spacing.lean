import SequenceChart.Proofs.Chart.Room

/-! Space between the rows of a chart. Frames come last, so the gap before a row is what the frames make of
the space that everything else has asked for: room for the tab of a header, padding above it, and padding for
every block that ends on the row before. -/

namespace SequenceChart

section Grow

variable {β γ : Type} [Preorder γ] {f : γ → β → γ} {l : List β}

theorem le_foldl (h : ∀ b ∈ l, ∀ x, x ≤ f x b) (x : γ) : x ≤ l.foldl f x := by
  induction l generalizing x with
  | nil => exact le_refl x
  | cons b later ih =>
    obtain ⟨hb, hlater⟩ := List.forall_mem_cons.mp h
    exact (hb x).trans (ih hlater _)

theorem le_foldl_of_mem (h : ∀ b ∈ l, ∀ x, x ≤ f x b) {b : β} (hb : b ∈ l) {y : γ} (hy : ∀ x, y ≤ f x b)
    (x : γ) : y ≤ l.foldl f x := by
  obtain ⟨before, after, rfl⟩ := List.append_of_mem hb
  rw [List.foldl_append, List.foldl_cons]
  refine (hy _).trans (le_foldl (fun b hb => h b ?_) _)
  exact List.mem_append_right _ (List.mem_cons_of_mem _ hb)

end Grow

section Fold

variable {β : Type} {f : Rat → β → Rat} {l : List β}

theorem foldl_eq_self (h : ∀ b ∈ l, ∀ x, f x b = x) (x : Rat) : l.foldl f x = x := by
  induction l with
  | nil => rfl
  | cons b later ih =>
    obtain ⟨hb, hlater⟩ := List.forall_mem_cons.mp h
    rw [List.foldl_cons, hb, ih hlater]

theorem add_countP_le_foldl {p : β → Bool} {amount : Rat}
    (h : ∀ b ∈ l, ∀ x, x + (if p b then amount else 0) ≤ f x b) (x : Rat) :
    x + l.countP p * amount ≤ l.foldl f x := by
  induction l generalizing x with
  | nil => simp
  | cons b later ih =>
    obtain ⟨hb, hlater⟩ := List.forall_mem_cons.mp h
    have hhere := hb x
    have hrest := ih hlater (f x b)
    rw [List.foldl_cons, List.countP_cons]
    push_cast
    split at hhere
    · rename_i hp
      rw [if_pos hp]
      linarith
    · rename_i hp
      rw [if_neg hp]
      linarith

theorem foldl_eq_add_countP {p : β → Bool} {amount : Rat}
    (h : ∀ b ∈ l, ∀ x, f x b = x + if p b then amount else 0) (x : Rat) :
    l.foldl f x = x + l.countP p * amount := by
  induction l generalizing x with
  | nil => simp
  | cons b later ih =>
    obtain ⟨hb, hlater⟩ := List.forall_mem_cons.mp h
    rw [List.foldl_cons, ih hlater, hb, List.countP_cons]
    push_cast
    split
    · ring
    · ring

theorem foldl_eq_any (p : β → Bool) (height : Rat)
    (h : ∀ b ∈ l, ∀ x, f x b = if p b then max x height else x) (x : Rat) :
    l.foldl f x = if l.any p then max x height else x := by
  induction l generalizing x with
  | nil => rfl
  | cons b later ih =>
    obtain ⟨hb, hlater⟩ := List.forall_mem_cons.mp h
    rw [List.foldl_cons, ih hlater, hb, List.any_cons]
    cases p b <;> simp

end Fold

namespace Shape.Frame

/-- What a frame makes of the gap before a row: room for the tab of every header on it with padding above, and
padding if the block ends on the row before. -/
def widen (f : Frame Rat) (gap : Nat) (x : Rat) : Rat :=
  f.segments.foldl (fun x h => if h.row = gap then max x (f.tabSize h).height + f.padding else x) x +
    if f.lastRow + 1 = gap then f.padding else 0

theorem foldl_constraints {f : Frame Rat} (htabs : ∀ h ∈ f.segments, (f.tabSize h).height ≠ 0) (pos : GridPos)
    (cols gap : Nat) (x : Rat) :
    (f.constraints pos cols).foldl (fun x c => c.vertical.widen gap x) x = f.widen gap x := by
  have hmargins : (f.marginConstraints pos cols).foldl (fun x c => c.vertical.widen gap x) x = x := by
    unfold marginConstraints
    split
    · rfl
    · simp
  have hheaders : ∀ h ∈ f.segments, ∀ x,
      (f.headerConstraints cols h).foldl (fun x c => c.vertical.widen gap x) x =
        if h.row = gap then max x (f.tabSize h).height + f.padding else x := by
    intro h hh x
    simp only [headerConstraints, List.foldl_cons, List.foldl_nil, Constraint.vertical, Sides.vertical,
      AxisConstraint.widen, Gaps.zero_eq, ne_eq, htabs h hh, not_false_eq_true, and_true, not_true_eq_false, and_false,
      if_false, add_zero, ite_self]
    split <;> rfl
  unfold constraints
  rw [List.foldl_append, List.foldl_append, hmargins, List.foldl_flatMap,
    List.foldl_ext _ _ x fun y h hh => hheaders h hh y, widen]
  simp only [List.foldl_cons, List.foldl_nil, Constraint.vertical, Sides.vertical, AxisConstraint.widen,
    Gaps.zero_eq, add_zero, ite_self]
  split
  · rfl
  · exact (add_zero _).symm

theorem below_nonneg {f : Frame Rat} (hpadding : 0 ≤ f.padding) (gap : Nat) :
    0 ≤ if f.lastRow + 1 = gap then f.padding else 0 := by
  split
  · exact hpadding
  · exact le_refl 0

theorem header_le {f : Frame Rat} (hpadding : 0 ≤ f.padding) (gap : Nat) (h : FrameHeader Rat) (x : Rat) :
    x ≤ if h.row = gap then max x (f.tabSize h).height + f.padding else x := by
  split
  · exact (le_max_left _ _).trans (le_add_of_nonneg_right hpadding)
  · exact le_refl x

theorem below_le_widen {f : Frame Rat} (hpadding : 0 ≤ f.padding) (gap : Nat) (x : Rat) :
    x + (if f.lastRow + 1 = gap then f.padding else 0) ≤ f.widen gap x :=
  add_le_add_left (le_foldl (fun h _ => header_le hpadding gap h) x) _

theorem le_widen {f : Frame Rat} (hpadding : 0 ≤ f.padding) (gap : Nat) (x : Rat) : x ≤ f.widen gap x :=
  (le_add_of_nonneg_right (below_nonneg hpadding gap)).trans (below_le_widen hpadding gap x)

theorem tab_le_widen {f : Frame Rat} (hpadding : 0 ≤ f.padding) {h : FrameHeader Rat} (hh : h ∈ f.segments)
    (x : Rat) : (f.tabSize h).height + f.padding ≤ f.widen h.row x := by
  refine le_add_of_le_of_nonneg (le_foldl_of_mem (fun other _ => header_le hpadding h.row other) hh ?_ x)
    (below_nonneg hpadding h.row)
  intro y
  rw [if_pos rfl]
  exact add_le_add_left (le_max_right _ _) _

theorem widen_of_ne {f : Frame Rat} {gap : Nat} (hrows : ∀ h ∈ f.segments, h.row ≠ gap) (x : Rat) :
    f.widen gap x = x + if f.lastRow + 1 = gap then f.padding else 0 := by
  unfold widen
  rw [foldl_eq_self]
  intro h hh y
  exact if_neg (hrows h hh)

theorem widen_first {f : Frame Rat} {first : FrameHeader Rat} {later : List (FrameHeader Rat)}
    (hsegments : f.segments = first :: later) (hlater : ∀ h ∈ later, h.row ≠ first.row)
    (hlast : f.lastRow + 1 ≠ first.row) (x : Rat) :
    f.widen first.row x = max x (f.tabSize first).height + f.padding := by
  unfold widen
  rw [hsegments, List.foldl_cons, if_pos rfl, if_neg hlast, add_zero, foldl_eq_self]
  intro h hh y
  exact if_neg (hlater h hh)

end Shape.Frame

namespace Layout

theorem text_height_nonneg (l : Layout Rat) {size : Rat} (hsize : 0 ≤ size) (text : String) (color : Color)
    (bold : Bool) : 0 ≤ (l.text text size color bold).size.height :=
  TextBlock.height_nonneg l.font text hsize

theorem tabHeight_pos {l : Layout Rat} (hroomy : l.config.Roomy) {s : BlockSite} {h : Shape.FrameHeader Rat}
    (hh : h ∈ (l.frameAt s).segments) : 0 < ((l.frameAt s).tabSize h).height := by
  obtain ⟨part, _, rfl⟩ := List.mem_map.mp hh
  have hheight := l.text_height_nonneg hroomy.fontSize part.2.heading.label l.config.style.blockText true
  have hpadding := hroomy.blockTabPadding
  refine add_pos_of_nonneg_of_pos (le_max_of_le_left hheight) (mul_pos ?_ hpadding)
  norm_num

end Layout

namespace Layout

variable {ι α : Type} [Length α] [Icon ι α]

/-- Boxes, lifelines and the title, which stand around everything that happens. -/
def surroundings (l : Layout α) (d : Diagram ι) : List (Placed (Shape ι α)) :=
  d.actors.flatMap l.boxes ++
    d.actors.map (fun actor => ⟨⟨1, actorCol actor.rank⟩, .lifeline (l.lifeline actor)⟩) ++
    d.title.toList.map fun title => ⟨⟨0, 0⟩, .title (l.title title)⟩

def unframed (l : Layout α) (d : Diagram ι) : List (Placed (Shape ι α)) :=
  l.surroundings d ++ (l.items 2 0 d.items : LayoutRun ι α).shapes

def placeFrame (f : Placed (Shape.Frame α)) : Placed (Shape ι α) := ⟨f.pos, .frame f.item⟩

omit [Icon ι α] in
theorem placements_eq (l : Layout α) (d : Diagram ι) :
    l.placements d = l.unframed d ++ (reserveMargins (d.blocks.map l.placedFrame)).map placeFrame := by
  unfold placements Diagram.blocks
  rw [← frames_items]
  rfl

end Layout

def Placed.widen {ι : Type} [Icon ι Rat] (cols gap : Nat) (x : Rat) (placed : Placed (Shape ι Rat)) : Rat :=
  (placed.item.constraints placed.pos cols).foldl (fun x c => c.vertical.widen gap x) x

theorem Layout.foldl_widen_reserveMargins (gap : Nat) (frames : List (Placed (Shape.Frame Rat))) (x : Rat) :
    (reserveMargins frames).foldl (fun x placed => placed.item.widen gap x) x =
      frames.foldl (fun x placed => placed.item.widen gap x) x := by
  cases frames <;> rfl

namespace Diagram

variable {ι : Type} [Icon ι Rat]

def rowGap (d : Diagram ι) (config : Config Rat) (font : Font Rat) (gap : Nat) : Rat :=
  (d.graphic config font).rowGaps gap

def unframedGap (d : Diagram ι) (config : Config Rat) (font : Font Rat) (gap : Nat) : Rat :=
  ((d.layout config font).unframed d).foldl (Placed.widen d.lastCol gap) 0

variable {d : Diagram ι} (h : d.Sound) {config : Config Rat} (hroomy : config.Roomy) (font : Font Rat)

include h hroomy

omit [Icon ι Rat] h in
theorem foldl_frames (gap : Nat) (x : Rat) :
    (Layout.reserveMargins (d.blocks.map (d.layout config font).placedFrame)).foldl
        (fun x placed =>
          (placed.item.constraints placed.pos d.lastCol).foldl (fun x c => c.vertical.widen gap x) x) x =
      d.blocks.foldl (fun x s => ((d.layout config font).frameAt s).widen gap x) x := by
  have hstep : ∀ x, ∀ placed ∈ Layout.reserveMargins (d.blocks.map (d.layout config font).placedFrame),
      (placed.item.constraints placed.pos d.lastCol).foldl (fun x c => c.vertical.widen gap x) x =
        placed.item.widen gap x := by
    intro x placed hplaced
    obtain ⟨first, hfirst, levels, rfl⟩ := Layout.mem_reserveMargins hplaced
    obtain ⟨s, _, rfl⟩ := List.mem_map.mp hfirst
    refine Shape.Frame.foldl_constraints ?_ _ _ _ _
    exact fun header hheader => (Layout.tabHeight_pos hroomy hheader).ne'
  rw [List.foldl_ext _ _ x hstep, Layout.foldl_widen_reserveMargins, List.foldl_map]
  rfl

/-- The gap before a row is what the frames make of the space that everything else has asked for. -/
theorem rowGap_eq {gap : Nat} (hgap : gap ≤ d.lastRow + 1) :
    d.rowGap config font gap =
      d.blocks.foldl (fun x s => ((d.layout config font).frameAt s).widen gap x) (d.unframedGap config font gap) := by
  have hfits := fits_graphic h hroomy font
  have hgraphic := graphic_eq h.ranked config font
  unfold rowGap
  rw [Graphic.rowGaps_eq_foldl hfits]
  · rw [hgraphic, Layout.placements_eq, List.foldl_append, List.foldl_map]
    exact foldl_frames hroomy font gap _
  · rw [hgraphic]
    exact hgap

theorem tab_le_rowGap {s : BlockSite} (hs : s ∈ d.blocks) {header : Shape.FrameHeader Rat}
    (hheader : header ∈ ((d.layout config font).frameAt s).segments) :
    (((d.layout config font).frameAt s).tabSize header).height + config.blockPadding ≤
      d.rowGap config font header.row := by
  have hrow : header.row ≤ d.lastRow + 1 :=
    Nat.le_succ_of_le ((Layout.row_le_of_mem_headers hheader).trans (lastRow_lt_lastRow h hs).le)
  rw [rowGap_eq h hroomy font hrow]
  refine le_foldl_of_mem ?_ hs ?_ _
  · exact fun t _ => Shape.Frame.le_widen hroomy.blockPadding.le header.row
  · exact Shape.Frame.tab_le_widen hroomy.blockPadding.le hheader

theorem unframedGap_nonneg (gap : Nat) : 0 ≤ d.unframedGap config font gap := by
  refine le_foldl ?_ 0
  intro placed hplaced
  refine le_foldl ?_
  intro c hc
  have hplaced : placed ∈ (d.layout config font).placements d := by
    rw [Layout.placements_eq]
    exact List.mem_append_left _ hplaced
  have hfits := fits_placements h hroomy font placed hplaced c hc
  exact AxisConstraint.le_widen (Constraint.widens_vertical hfits.widens) gap

theorem padding_le_rowGap {gap : Nat} (hgap : gap ≤ d.lastRow + 1) :
    d.blocks.countP (·.lastRow + 1 = gap) * config.blockPadding ≤ d.rowGap config font gap := by
  have hbelow : ∀ s ∈ d.blocks, ∀ x, x + (if decide (s.lastRow + 1 = gap) then config.blockPadding else 0) ≤
      ((d.layout config font).frameAt s).widen gap x := by
    intro s _ x
    simp only [decide_eq_true_eq]
    exact Shape.Frame.below_le_widen (f := (d.layout config font).frameAt s) hroomy.blockPadding.le gap x
  rw [rowGap_eq h hroomy font hgap]
  refine le_trans ?_ (add_countP_le_foldl hbelow _)
  exact le_add_of_nonneg_left (unframedGap_nonneg h hroomy font gap)

end Diagram

namespace Diagram

variable {ι : Type} [Icon ι Rat]

def rowY (d : Diagram ι) (config : Config Rat) (font : Font Rat) (row : Nat) : Rat :=
  ((d.graphic config font).resolve.1.grid.point row 0).y

variable {d : Diagram ι} (h : d.Sound) {config : Config Rat} (font : Font Rat)

include h

omit [Icon ι Rat] in
theorem rows_graphic : (d.graphic config font).grid.rows = d.lastRow := by
  rw [graphic_eq h.ranked config font]
  rfl

omit [Icon ι Rat] in
theorem cols_graphic : (d.graphic config font).grid.cols = d.lastCol := by
  rw [graphic_eq h.ranked config font]
  rfl

theorem rowY_succ {row : Nat} (hrow : row < d.lastRow) :
    d.rowY config font (row + 1) = d.rowY config font row + d.rowGap config font (row + 1) := by
  unfold rowY rowGap
  rw [Graphic.point_resolve, Graphic.point_resolve, rows_graphic h font, Nat.min_eq_left (Nat.succ_le_of_lt hrow),
    Nat.min_eq_left hrow.le]
  rfl

theorem rowY_mono (hroomy : config.Roomy) {row next : Nat} (hle : row ≤ next) :
    d.rowY config font row ≤ d.rowY config font next := by
  have hgaps := (Graphic.reach_rows (fits_graphic h hroomy font)).nonneg
  unfold rowY
  rw [Graphic.point_resolve, Graphic.point_resolve]
  exact Gaps.position_mono _ hgaps (min_le_min_right _ hle)

end Diagram

end SequenceChart
