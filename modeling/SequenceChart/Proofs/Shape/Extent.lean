import SequenceChart.Proofs.Chart.Segments

/-! Extents of shapes. Whatever a shape draws at a point lies within an outline that follows from its
measures, wherever the columns of the grid are. -/

namespace SequenceChart

def PathStep.points {α : Type} : PathStep α → List (Point α)
  | .move target => [target]
  | .line target => [target]
  | .quadratic control target => [control, target]
  | .close => []

/-- The points that settle where a call draws: ends, corners and control points. A row of text takes the room that
the font measures for it. -/
def Call.points (font : Font Rat) : Call Rat → List (Point Rat)
  | .setSize _ => []
  | .line start stop _ => [start, stop]
  | .rect corner size _ _ => [corner, ⟨corner.x + size.width, corner.y + size.height⟩]
  | .circle center radius _ _ => [⟨center.x - radius, center.y - radius⟩, ⟨center.x + radius, center.y + radius⟩]
  | .text corner content style =>
    let size := font.measure content style.size
    [corner, ⟨corner.x + size.width, corner.y + size.height⟩]
  | .polygon points _ _ => points
  | .polyline points _ => points
  | .path steps _ _ => steps.flatMap PathStep.points
  | .close => []

def Font.Nonneg (font : Font Rat) : Prop :=
  ∀ text size, 0 ≤ size → 0 ≤ (font.measure text size).width ∧ 0 ≤ (font.measure text size).height

theorem Font.nonneg_estimated [ColumnWidths] (family : String) : (estimated family : Font Rat).Nonneg := by
  have hglyph : ∀ c, (0 : Rat) ≤ glyphWeight c := by
    intro c
    unfold glyphWeight
    split
    · norm_num
    · norm_num
    · split_ifs <;> norm_num
    · norm_num
  have hweight : ∀ (text : List Char) {sum : Rat}, 0 ≤ sum →
      0 ≤ text.foldl (fun sum c => sum + glyphWeight c) sum := by
    intro text
    induction text with
    | nil => exact id
    | cons c later ih => exact fun h => ih (add_nonneg h (hglyph c))
  intro text size hsize
  refine ⟨mul_nonneg (mul_nonneg (hweight text.toList ?_) hsize) ?_, mul_nonneg hsize ?_⟩
  all_goals norm_num

theorem Font.nonneg_plain : (plain : Font Rat).Nonneg := @nonneg_estimated .ascii defaultFamily

namespace Outline

structure Contains (o : Outline Rat) (p : Point Rat) : Prop where
  left : o.left ≤ p.x
  right : p.x ≤ o.right
  top : o.top ≤ p.y
  bottom : p.y ≤ o.bottom

def Bounds (o : Outline Rat) (font : Font Rat) (calls : List (Call Rat)) : Prop :=
  ∀ call ∈ calls, ∀ p ∈ call.points font, o.Contains p

def ofBox (corner : Point Rat) (size : Size Rat) : Outline Rat :=
  ⟨corner.x, corner.x + size.width, corner.y, corner.y + size.height⟩

variable {o inner : Outline Rat} {font : Font Rat} {calls later : List (Call Rat)}

theorem bounds_nil (o : Outline Rat) (font : Font Rat) : o.Bounds font [] := List.forall_mem_nil _

theorem bounds_cons {call : Call Rat} :
    o.Bounds font (call :: calls) ↔ (∀ p ∈ call.points font, o.Contains p) ∧ o.Bounds font calls :=
  List.forall_mem_cons

theorem bounds_append : o.Bounds font (calls ++ later) ↔ o.Bounds font calls ∧ o.Bounds font later :=
  List.forall_mem_append

theorem Bounds.mono (h : inner.Bounds font calls) (hleft : o.left ≤ inner.left) (hright : inner.right ≤ o.right)
    (htop : o.top ≤ inner.top) (hbottom : inner.bottom ≤ o.bottom) : o.Bounds font calls := by
  intro call hcall p hp
  have hp := h call hcall p hp
  exact ⟨hleft.trans hp.left, hp.right.trans hright, htop.trans hp.top, hp.bottom.trans hbottom⟩

theorem Covers.bounds {corner : Point Rat} {size : Size Rat} (h : o.Covers corner size)
    (hcalls : (ofBox corner size).Bounds font calls) : o.Bounds font calls :=
  hcalls.mono h.left h.right h.top h.bottom

theorem Covers.contains {corner : Point Rat} {size : Size Rat} (h : o.Covers corner size)
    (hwidth : 0 ≤ size.width) (hheight : 0 ≤ size.height) :
    ∀ p ∈ [corner, ⟨corner.x + size.width, corner.y + size.height⟩], o.Contains p := by
  obtain ⟨hleft, hright, htop, hbottom⟩ := h
  simp only [List.forall_mem_cons]
  refine ⟨⟨hleft, ?_, htop, ?_⟩, ⟨?_, hright, ?_, hbottom⟩, List.forall_mem_nil _⟩ <;> linarith

theorem covers_ofBox (corner : Point Rat) (size : Size Rat) : (ofBox corner size).Covers corner size :=
  ⟨le_refl _, le_refl _, le_refl _, le_refl _⟩

end Outline

namespace TextBlock

def MeasuredBy (b : TextBlock Rat) (font : Font Rat) : Prop :=
  ∃ text style, 0 ≤ style.size ∧ b = measure font text style

variable {b : TextBlock Rat} {font : Font Rat}

theorem MeasuredBy.height_nonneg (h : b.MeasuredBy font) : 0 ≤ b.size.height := by
  obtain ⟨text, style, hsize, rfl⟩ := h
  exact TextBlock.height_nonneg font text hsize

theorem bounds_draw (hfont : font.Nonneg) (h : b.MeasuredBy font) (corner : Point Rat) (align : TextAlign) :
    (Outline.ofBox corner b.size).Bounds font (b.draw corner align) := by
  obtain ⟨text, style, hsize, rfl⟩ := h
  intro call hcall
  obtain ⟨⟨row, i⟩, hrow, rfl⟩ := List.mem_map.mp hcall
  obtain ⟨hwidth, hwidest, habove, hbelow⟩ := row_within font text hsize hrow
  obtain ⟨hwide, hhigh⟩ := hfont row.text style.size hsize
  have hcovers : ∀ x, corner.x ≤ x → x + row.width ≤ corner.x + (measure font text style).size.width →
      (Outline.ofBox corner (measure font text style).size).Covers
        ⟨x, corner.y + (i : Rat) * (measure font text style).rowHeight⟩ (font.measure row.text style.size) := by
    intro x hleft hright
    rw [hwidth] at hright
    refine ⟨hleft, hright, ?_, ?_⟩ <;> dsimp only [Outline.ofBox] <;> linarith
  cases align with
  | left => exact (hcovers _ (le_refl _) (by linarith)).contains hwide hhigh
  | center => exact (hcovers _ (by linarith) (by linarith)).contains hwide hhigh

theorem bounds_drawLabel (hfont : font.Nonneg) (h : b.MeasuredBy font) (corner : Point Rat) (background : Color)
    (align : TextAlign) : (Outline.ofBox corner b.size).Bounds font (b.drawLabel corner background align) := by
  unfold drawLabel
  split
  · exact Outline.bounds_nil _ font
  · refine Outline.bounds_cons.mpr ⟨?_, bounds_draw hfont h corner align⟩
    exact (Outline.covers_ofBox corner b.size).contains b.width_nonneg h.height_nonneg

end TextBlock

def DrawnAcross (font : Font Rat) (left right : Rat) (calls : List (Call Rat)) : Prop :=
  ∀ call ∈ calls, ∀ p ∈ call.points font, left ≤ p.x ∧ p.x ≤ right

def DrawnDown (font : Font Rat) (top bottom : Rat) (calls : List (Call Rat)) : Prop :=
  ∀ call ∈ calls, ∀ p ∈ call.points font, top ≤ p.y ∧ p.y ≤ bottom

theorem Outline.Bounds.across {o : Outline Rat} {font : Font Rat} {calls : List (Call Rat)}
    (h : o.Bounds font calls) {left right : Rat} (hleft : left ≤ o.left) (hright : o.right ≤ right) :
    DrawnAcross font left right calls := by
  intro call hcall p hp
  have hp := h call hcall p hp
  exact ⟨hleft.trans hp.left, hp.right.trans hright⟩

theorem Outline.Bounds.down {o : Outline Rat} {font : Font Rat} {calls : List (Call Rat)}
    (h : o.Bounds font calls) {top bottom : Rat} (htop : top ≤ o.top) (hbottom : o.bottom ≤ bottom) :
    DrawnDown font top bottom calls := by
  intro call hcall p hp
  have hp := h call hcall p hp
  exact ⟨htop.trans hp.top, hp.bottom.trans hbottom⟩

/-- How far control points of an icon may lie above and below it. -/
def Icon.overhang : Rat := 4

/-- Icons that are drawn where they say they are. -/
class Icon.Contained (ι : Type) [Icon ι Rat] : Prop where
  size_nonneg : ∀ icon : ι, 0 ≤ (Icon.size icon : Size Rat).width ∧ 0 ≤ (Icon.size icon : Size Rat).height
  bounds : ∀ (icon : ι) (corner : Point Rat) (stroke : Stroke Rat) (fill : Color) (font : Font Rat),
    (⟨corner.x, corner.x + (Icon.size icon : Size Rat).width, corner.y - Icon.overhang,
      corner.y + (Icon.size icon : Size Rat).height + Icon.overhang⟩ : Outline Rat).Bounds font
        (Icon.draw icon corner stroke fill)

theorem StickFigure.size_icon : (Icon.size BuiltinIcon.stickFigure : Size Rat) = ⟨20, 34⟩ := by
  norm_num [Icon.size, size, armSpan, headRadius, bodyLength, legLength]

theorem StickFigure.bounds_draw (corner : Point Rat) (stroke : Stroke Rat) (fill : Color) (font : Font Rat) :
    (⟨corner.x, corner.x + 20, corner.y - 4, corner.y + 34 + 4⟩ : Outline Rat).Bounds font
      (draw corner stroke fill) := by
  simp only [Outline.Bounds, draw, headRadius, bodyLength, armSpan, legLength, Call.points, List.forall_mem_cons]
  refine ⟨⟨?_, ?_, List.forall_mem_nil _⟩, ⟨?_, ?_, List.forall_mem_nil _⟩, ⟨?_, ?_, List.forall_mem_nil _⟩,
    ⟨?_, ?_, ?_, List.forall_mem_nil _⟩, List.forall_mem_nil _⟩
  all_goals constructor <;> dsimp only <;> linarith

theorem Drum.size_icon : (Icon.size BuiltinIcon.drum : Size Rat) = ⟨24, 28⟩ := by
  norm_num [Icon.size, size, width, height]

theorem Drum.bounds_draw (corner : Point Rat) (stroke : Stroke Rat) (fill : Color) (font : Font Rat) :
    (⟨corner.x, corner.x + 24, corner.y - 4, corner.y + 28 + 4⟩ : Outline Rat).Bounds font
      (draw corner stroke fill) := by
  simp only [Outline.Bounds, draw, width, height, cap, Call.points, PathStep.points, List.flatMap_cons,
    List.flatMap_nil, List.cons_append, List.nil_append, List.forall_mem_cons]
  refine ⟨⟨?_, ?_, ?_, ?_, ?_, ?_, ?_, List.forall_mem_nil _⟩, ⟨?_, ?_, ?_, ?_, ?_, List.forall_mem_nil _⟩,
    List.forall_mem_nil _⟩
  all_goals constructor <;> dsimp only <;> linarith

instance : Icon.Contained BuiltinIcon where
  size_nonneg icon := by
    cases icon with
    | stickFigure => norm_num [StickFigure.size_icon]
    | drum => norm_num [Drum.size_icon]
  bounds icon corner stroke fill font := by
    cases icon with
    | stickFigure =>
      rw [StickFigure.size_icon]
      exact StickFigure.bounds_draw corner stroke fill font
    | drum =>
      rw [Drum.size_icon]
      exact Drum.bounds_draw corner stroke fill font

namespace Shape

variable {font : Font Rat}

def Title.extent (t : Title Rat) (point : Point Rat) (right : Rat) : Outline Rat :=
  .ofBox ⟨(point.x + right - t.text.size.width) / 2, point.y - t.text.size.height - t.gap / 2⟩ t.text.size

theorem Title.bounds_draw (hfont : font.Nonneg) {t : Title Rat} (h : t.text.MeasuredBy font) (g : Grid Rat)
    (point : Point Rat) : (t.extent point (g.point 0 g.cols).x).Bounds font (t.draw g point) := by
  unfold extent
  rw [← two_eq]
  exact TextBlock.bounds_draw hfont h _ .center

namespace ActorBox

variable {ι : Type} [Icon ι Rat]

def extent (b : ActorBox ι Rat) (point : Point Rat) : Outline Rat :=
  .ofBox ⟨point.x - b.size.width / 2, if b.footer then point.y else point.y - b.size.height⟩ b.size

theorem labelTop_eq (b : ActorBox ι Rat) (y : Rat) : b.labelTop y = y + b.iconRoom.height := by
  unfold labelTop iconRoom
  split
  · rfl
  · norm_num [Size.zero]

variable [Icon.Contained ι]

theorem iconRoom_nonneg {b : ActorBox ι Rat} (hgap : 0 ≤ b.iconGap) :
    0 ≤ b.iconRoom.width ∧ 0 ≤ b.iconRoom.height := by
  unfold iconRoom
  split
  · rename_i ref _
    obtain ⟨hwidth, hheight⟩ := Icon.Contained.size_nonneg ref.icon
    exact ⟨hwidth, add_nonneg hheight hgap⟩
  · norm_num [Size.zero]

theorem bounds_drawIcon {b : ActorBox ι Rat} (font : Font Rat) (hgap : Icon.overhang ≤ b.iconGap) (x y : Rat) :
    (⟨x - b.iconRoom.width / 2, x + b.iconRoom.width / 2, y - Icon.overhang, y + b.iconRoom.height⟩ :
      Outline Rat).Bounds font (b.drawIcon x y) := by
  unfold drawIcon iconRoom
  split
  · rename_i ref _
    refine (Icon.Contained.bounds ref.icon _ b.stroke b.iconFill font).mono ?_ ?_ ?_ ?_ <;> dsimp only <;> linarith
  · exact Outline.bounds_nil _ font

/-- The padding above an icon and the gap below it have room for its control points. -/
theorem bounds_draw (hfont : font.Nonneg) {b : ActorBox ι Rat} (h : b.label.MeasuredBy font)
    (hpadding : Icon.overhang ≤ b.padding) (hgap : Icon.overhang ≤ b.iconGap) (point : Point Rat) :
    (b.extent point).Bounds font (b.draw point) := by
  have hoverhang : Icon.overhang = 4 := rfl
  have hlabelWidth := b.label.width_nonneg
  have hlabelHeight := h.height_nonneg
  obtain ⟨hiconWidth, hiconHeight⟩ := iconRoom_nonneg (b := b) (by linarith)
  have hwidth : b.size.width = max b.label.size.width b.iconRoom.width + 2 * b.padding := two_eq ▸ rfl
  have hheight : b.size.height = b.label.size.height + b.iconRoom.height + 2 * b.padding := two_eq ▸ rfl
  have hwideLabel := le_max_left b.label.size.width b.iconRoom.width
  have hwideIcon := le_max_right b.label.size.width b.iconRoom.width
  unfold draw extent
  dsimp only
  generalize (if b.footer then point.y else point.y - b.size.height) = top
  refine Outline.bounds_cons.mpr ⟨?_, Outline.bounds_append.mpr ⟨?_, ?_⟩⟩
  · rw [← two_eq]
    exact (Outline.covers_ofBox _ _).contains (by linarith) (by linarith)
  · refine (bounds_drawIcon font hgap point.x (top + b.padding)).mono ?_ ?_ ?_ ?_ <;>
      dsimp only [Outline.ofBox] <;> linarith
  · refine Outline.Covers.bounds ?_ (TextBlock.bounds_draw hfont h _ .center)
    rw [labelTop_eq]
    constructor <;> dsimp only [Outline.ofBox] <;> linarith

end ActorBox

def Lifeline.extent (point stop : Point Rat) : Outline Rat :=
  ⟨min point.x stop.x, max point.x stop.x, min point.y stop.y, max point.y stop.y⟩

theorem Lifeline.bounds_draw (font : Font Rat) (l : Lifeline Rat) (g : Grid Rat) (point : Point Rat) :
    (extent point (g.point l.footerRow l.col)).Bounds font (l.draw g point) := by
  refine Outline.bounds_cons.mpr ⟨?_, Outline.bounds_nil _ font⟩
  refine List.forall_mem_cons.mpr ⟨?_, List.forall_mem_singleton.mpr ?_⟩
  · exact ⟨min_le_left _ _, le_max_left _ _, min_le_left _ _, le_max_left _ _⟩
  · exact ⟨min_le_right _ _, le_max_right _ _, min_le_right _ _, le_max_right _ _⟩

namespace Message

def headBase (tip : Rat) (rightward : Bool) : Rat := if rightward then tip - 8 else tip + 8

theorem bounds_drawHead (font : Font Rat) (m : Message Rat) {o : Outline Rat} {tip : Point Rat} {rightward : Bool}
    (htip : o.left ≤ tip.x ∧ tip.x ≤ o.right)
    (hbase : o.left ≤ headBase tip.x rightward ∧ headBase tip.x rightward ≤ o.right)
    (hhigh : o.top ≤ tip.y - 4 ∧ tip.y + 4 ≤ o.bottom) : o.Bounds font (m.drawHead tip rightward) := by
  have height : (headLength : Rat) = 8 := by norm_num [headLength]
  have hfour : (headHalfWidth : Rat) = 4 := by norm_num [headHalfWidth]
  have hcontains : o.Contains tip := ⟨htip.1, htip.2, by linarith, by linarith⟩
  have hupper : o.Contains ⟨headBase tip.x rightward, tip.y - 4⟩ :=
    ⟨hbase.1, hbase.2, hhigh.1, by dsimp only; linarith⟩
  have hlower : o.Contains ⟨headBase tip.x rightward, tip.y + 4⟩ :=
    ⟨hbase.1, hbase.2, by dsimp only; linarith, hhigh.2⟩
  unfold headBase at hupper hlower
  unfold drawHead
  rw [height, hfour]
  dsimp only
  have hall : ∀ call, (∀ p ∈ call.points font, o.Contains p) → o.Bounds font [call] := fun call h =>
    Outline.bounds_cons.mpr ⟨h, Outline.bounds_nil o font⟩
  split <;> refine hall _ ?_ <;> simp only [Call.points, List.forall_mem_cons]
  · exact ⟨hcontains, hupper, hlower, List.forall_mem_nil _⟩
  · exact ⟨hupper, hcontains, hlower, List.forall_mem_nil _⟩
  · exact ⟨hupper, hcontains, List.forall_mem_nil _⟩
  · exact ⟨hlower, hcontains, List.forall_mem_nil _⟩

def loopExtent (m : Message Rat) (point : Point Rat) : Outline Rat where
  left := point.x
  right := point.x + (m.loop.width + m.labelGap + m.label.size.width)
  top := point.y - max (max m.loop.height 4) ((m.loop.height + m.label.size.height) / 2)
  bottom := point.y + max 4 ((m.label.size.height - m.loop.height) / 2)

theorem bounds_drawLoop (hfont : font.Nonneg) {m : Message Rat} (h : m.label.MeasuredBy font)
    (hwidth : 8 ≤ m.loop.width) (hheight : 0 ≤ m.loop.height) (hgap : 0 ≤ m.labelGap) (point : Point Rat) :
    (m.loopExtent point).Bounds font (m.drawLoop point) := by
  have hlabel := m.label.width_nonneg
  have htop := le_max_left (max m.loop.height 4) ((m.loop.height + m.label.size.height) / 2)
  have hloop := le_max_left m.loop.height 4
  have hhead := le_max_right m.loop.height 4
  have hmiddle := le_max_right (max m.loop.height 4) ((m.loop.height + m.label.size.height) / 2)
  have hbottom := le_max_left 4 ((m.label.size.height - m.loop.height) / 2)
  have hbelow := le_max_right 4 ((m.label.size.height - m.loop.height) / 2)
  unfold drawLoop
  refine Outline.bounds_cons.mpr ⟨?_, Outline.bounds_append.mpr ⟨?_, ?_⟩⟩
  · simp only [Call.points, List.forall_mem_cons]
    refine ⟨?_, ?_, ?_, ?_, List.forall_mem_nil _⟩
    all_goals constructor <;> dsimp only [loopExtent] <;> linarith
  · refine bounds_drawHead font m ⟨?_, ?_⟩ ⟨?_, ?_⟩ ⟨?_, ?_⟩ <;> dsimp [loopExtent, headBase] <;> linarith
  · refine Outline.Covers.bounds ?_ (TextBlock.bounds_drawLabel hfont h _ m.labelFill .left)
    constructor <;> dsimp only [loopExtent] <;> linarith

def arrowExtent (m : Message Rat) (point : Point Rat) (toX : Rat) : Outline Rat where
  left := min (min point.x toX) (min (headBase toX (point.x ≤ toX)) ((point.x + toX) / 2 - m.label.size.width / 2))
  right := max (max point.x toX) (max (headBase toX (point.x ≤ toX)) ((point.x + toX) / 2 + m.label.size.width / 2))
  top := point.y - max 4 (m.labelGap + m.label.size.height)
  bottom := point.y + 4

theorem bounds_drawArrow (hfont : font.Nonneg) {m : Message Rat} (h : m.label.MeasuredBy font)
    (hgap : 0 ≤ m.labelGap) (point : Point Rat) (toX : Rat) :
    (m.arrowExtent point toX).Bounds font (m.drawArrow point toX) := by
  have hheight := h.height_nonneg
  have hhead := le_max_left 4 (m.labelGap + m.label.size.height)
  have hlabel := le_max_right 4 (m.labelGap + m.label.size.height)
  have hleft : (m.arrowExtent point toX).left ≤ point.x ∧ (m.arrowExtent point toX).left ≤ toX ∧
      (m.arrowExtent point toX).left ≤ headBase toX (point.x ≤ toX) ∧
      (m.arrowExtent point toX).left ≤ (point.x + toX) / 2 - m.label.size.width / 2 := by
    simp [arrowExtent]
  have hright : point.x ≤ (m.arrowExtent point toX).right ∧ toX ≤ (m.arrowExtent point toX).right ∧
      headBase toX (point.x ≤ toX) ≤ (m.arrowExtent point toX).right ∧
      (point.x + toX) / 2 + m.label.size.width / 2 ≤ (m.arrowExtent point toX).right := by
    simp [arrowExtent]
  have htop : (m.arrowExtent point toX).top = point.y - max 4 (m.labelGap + m.label.size.height) := rfl
  have hbottom : (m.arrowExtent point toX).bottom = point.y + 4 := rfl
  unfold drawArrow
  refine Outline.bounds_cons.mpr ⟨?_, Outline.bounds_append.mpr ⟨?_, ?_⟩⟩
  · simp only [Call.points, List.forall_mem_cons]
    refine ⟨⟨hleft.1, hright.1, ?_, ?_⟩, ⟨hleft.2.1, hright.2.1, ?_, ?_⟩, List.forall_mem_nil _⟩ <;> linarith
  · refine bounds_drawHead font m ⟨hleft.2.1, hright.2.1⟩ ⟨hleft.2.2.1, hright.2.2.1⟩ ⟨?_, ?_⟩ <;> linarith
  · refine Outline.Covers.bounds ?_ (TextBlock.bounds_drawLabel hfont h _ m.labelFill .center)
    constructor <;> dsimp only <;> linarith

end Message

namespace NoteBox

theorem size_eq (n : NoteBox Rat) :
    n.size = ⟨n.text.size.width + 2 * n.padding, n.text.size.height + 2 * n.padding⟩ := by
  exact two_eq ▸ rfl

theorem width_le_edges (n : NoteBox Rat) (x : Rat) (otherX : Option Rat) :
    n.size.width ≤ (n.edges x otherX).2 - (n.edges x otherX).1 := by
  unfold edges
  dsimp only
  split
  · dsimp only
    linarith
  · dsimp only
    linarith
  · dsimp only
    linarith
  · rename_i other _
    have hextra := le_max_left (n.size.width - (max x other - min x other + 2.0 * n.offset)) 0.0
    dsimp only
    linarith

def extent (n : NoteBox Rat) (point : Point Rat) (otherX : Option Rat) : Outline Rat :=
  ⟨(n.edges point.x otherX).1, (n.edges point.x otherX).2, point.y - n.size.height, point.y⟩

theorem bounds_draw (hfont : font.Nonneg) {n : NoteBox Rat} (h : n.text.MeasuredBy font) (hpadding : 0 ≤ n.padding)
    (hfold : 0 ≤ n.fold) (g : Grid Rat) (point : Point Rat) :
    (n.extent point (n.otherCol.map fun col => (g.point 0 col).x)).Bounds font (n.draw g point) := by
  have hwidth := n.text.width_nonneg
  have hheight := h.height_nonneg
  have hwide := n.width_le_edges point.x (n.otherCol.map fun col => (g.point 0 col).x)
  unfold draw extent
  dsimp only
  generalize n.edges point.x (n.otherCol.map fun col => (g.point 0 col).x) = sides at hwide ⊢
  obtain ⟨left, right⟩ := sides
  rw [size_eq] at hwide ⊢
  dsimp only at hwide ⊢
  set bottomUp := point.y - (point.y - (n.text.size.height + 2 * n.padding)) with hup
  -- The fold is never larger than the sheet, whatever size it is given.
  have hnarrow : min (min n.fold (right - left)) bottomUp ≤ right - left := (min_le_left _ _).trans (min_le_right _ _)
  have hlow : min (min n.fold (right - left)) bottomUp ≤ bottomUp := min_le_right _ _
  have hsome : 0 ≤ min (min n.fold (right - left)) bottomUp :=
    le_min (le_min hfold (by linarith)) (by linarith)
  generalize min (min n.fold (right - left)) bottomUp = fold at hnarrow hlow hsome ⊢
  refine Outline.bounds_cons.mpr ⟨?_, Outline.bounds_cons.mpr ⟨?_, ?_⟩⟩
  · simp only [Call.points, List.forall_mem_cons]
    refine ⟨?_, ?_, ?_, ?_, ?_, List.forall_mem_nil _⟩
    all_goals constructor <;> dsimp only <;> linarith
  · simp only [Call.points, List.forall_mem_cons]
    refine ⟨?_, ?_, ?_, List.forall_mem_nil _⟩
    all_goals constructor <;> dsimp only <;> linarith
  · refine Outline.Covers.bounds ?_ (TextBlock.bounds_draw hfont h _ .left)
    constructor <;> dsimp only <;> linarith

end NoteBox

namespace Separator

theorem height_eq (s : Separator Rat) : s.height = max (s.text.size.height + 2 * s.padding) s.minHeight := by
  exact two_eq ▸ rfl

def extent (s : Separator Rat) (point : Point Rat) (right : Rat) : Outline Rat where
  left := min (min point.x right) ((point.x + right - s.text.size.width) / 2 - s.padding)
  right := max (max point.x right) ((point.x + right + s.text.size.width) / 2 + s.padding)
  top := point.y - s.height
  bottom := point.y

theorem bounds_draw (hfont : font.Nonneg) {s : Separator Rat} (h : s.text.MeasuredBy font) (hpadding : 0 ≤ s.padding)
    (g : Grid Rat) (point : Point Rat) :
    (s.extent point (g.point 0 g.cols).x).Bounds font (s.draw g point) := by
  have hwidth := s.text.width_nonneg
  have hheight := h.height_nonneg
  have hroom : s.text.size.height + 2 * s.padding ≤ s.height := s.height_eq ▸ le_max_left _ _
  unfold draw
  dsimp only
  generalize (g.point 0 g.cols).x = right
  have hleft : (s.extent point right).left ≤ point.x ∧ (s.extent point right).left ≤ right ∧
      (s.extent point right).left ≤ (point.x + right - s.text.size.width) / 2 - s.padding := by
    simp [extent]
  have hright : point.x ≤ (s.extent point right).right ∧ right ≤ (s.extent point right).right ∧
      (point.x + right + s.text.size.width) / 2 + s.padding ≤ (s.extent point right).right := by
    simp [extent]
  have htop : (s.extent point right).top = point.y - s.height := rfl
  have hbottom : (s.extent point right).bottom = point.y := rfl
  obtain ⟨hleftPoint, hleftEnd, hleftText⟩ := hleft
  obtain ⟨hrightPoint, hrightEnd, hrightText⟩ := hright
  have htext : (s.extent point right).Covers
      ⟨(point.x + right - s.text.size.width) / 2.0, point.y - s.height + s.height / 2.0 - s.text.size.height / 2.0⟩
      s.text.size := by
    constructor <;> dsimp only <;> linarith
  split
  · exact htext.bounds (TextBlock.bounds_drawLabel hfont h _ s.labelFill .center)
  · refine Outline.bounds_cons.mpr ⟨?_, htext.bounds (TextBlock.bounds_draw hfont h _ .center)⟩
    simp only [Call.points, List.forall_mem_cons]
    refine ⟨?_, ?_, List.forall_mem_nil _⟩
    all_goals constructor <;> dsimp only <;> linarith
  · refine Outline.bounds_cons.mpr ⟨?_, htext.bounds (TextBlock.bounds_draw hfont h _ .center)⟩
    simp only [Call.points, List.forall_mem_cons]
    refine ⟨?_, ?_, List.forall_mem_nil _⟩
    all_goals constructor <;> dsimp only <;> linarith
  · refine Outline.bounds_cons.mpr ⟨?_, htext.bounds (TextBlock.bounds_drawLabel hfont h _ s.labelFill .center)⟩
    simp only [Call.points, List.forall_mem_cons]
    refine ⟨?_, ?_, List.forall_mem_nil _⟩
    all_goals constructor <;> dsimp only <;> linarith

end Separator

namespace Frame

variable {f : Frame Rat} {header : FrameHeader Rat}

def HasRoom (f : Frame Rat) (left right : Rat) (header : FrameHeader Rat) : Prop :=
  left + (f.tabSize header).width + header.message.size.width + 4 * f.tabPadding ≤ right

theorem tabSize_eq (f : Frame Rat) (header : FrameHeader Rat) : f.tabSize header =
    ⟨header.tab.size.width + 2 * f.tabPadding,
      max header.tab.size.height header.message.size.height + 2 * f.tabPadding⟩ := by
  exact two_eq ▸ rfl

theorem bounds_drawHeader (hfont : font.Nonneg) (htab : header.tab.MeasuredBy font)
    (hmessage : header.message.MeasuredBy font) (hpadding : 0 ≤ f.tabPadding) {left right : Rat}
    (hroom : f.HasRoom left right header) (top : Rat) :
    (⟨left, right, top, top + (f.tabSize header).height⟩ : Outline Rat).Bounds font
      (f.drawHeader left top header) := by
  have htabWidth := header.tab.width_nonneg
  have hmessageWidth := header.message.width_nonneg
  have htabHeight := le_max_left header.tab.size.height header.message.size.height
  have hmessageHeight := le_max_right header.tab.size.height header.message.size.height
  have hhigh := htab.height_nonneg
  unfold HasRoom at hroom
  unfold drawHeader
  rw [tabSize_eq] at hroom ⊢
  dsimp only at hroom ⊢
  refine Outline.bounds_cons.mpr ⟨?_, Outline.bounds_append.mpr ⟨?_, ?_⟩⟩
  · refine Outline.Covers.contains ⟨?_, ?_, ?_, ?_⟩ ?_ ?_ <;> dsimp only <;> linarith
  · refine Outline.Covers.bounds ?_ (TextBlock.bounds_draw hfont htab _ .left)
    constructor <;> dsimp only <;> linarith
  · refine Outline.Covers.bounds ?_ (TextBlock.bounds_drawLabel hfont hmessage _ f.labelFill .left)
    constructor <;> dsimp only <;> linarith

theorem across_draw (hfont : font.Nonneg)
    (hmeasured : ∀ header ∈ f.segments, header.tab.MeasuredBy font ∧ header.message.MeasuredBy font)
    (hpadding : 0 ≤ f.tabPadding) (g : Grid Rat)
    (hroom : ∀ header ∈ f.segments, f.HasRoom (f.edges g).1 (f.edges g).2 header) :
    DrawnAcross font (f.edges g).1 (f.edges g).2 (f.draw g) := by
  -- A header with room shows as well that the edges are in order.
  have hheader : ∀ part ∈ f.segments.zip (f.tops fun row => (g.point row 0).y),
      DrawnAcross font (f.edges g).1 (f.edges g).2 (f.drawHeader (f.edges g).1 part.2 part.1) ∧
        (f.edges g).1 ≤ (f.edges g).2 := by
    intro part hpart
    have hmem := (List.of_mem_zip hpart).1
    obtain ⟨htab, hmessage⟩ := hmeasured part.1 hmem
    have hpart := hroom part.1 hmem
    have hwide : (f.tabSize part.1).width = part.1.tab.size.width + 2 * f.tabPadding := by rw [tabSize_eq]
    refine ⟨(bounds_drawHeader hfont htab hmessage hpadding hpart part.2).across (le_refl _) (le_refl _), ?_⟩
    unfold HasRoom at hpart
    linarith [part.1.tab.width_nonneg, part.1.message.width_nonneg]
  unfold draw
  dsimp only
  generalize f.segments.zip (f.tops fun row => (g.point row 0).y) = parts at hheader
  cases parts with
  | nil => exact List.forall_mem_nil _
  | cons part later =>
    obtain ⟨hfirst, hlater⟩ := List.forall_mem_cons.mp hheader
    refine List.forall_mem_cons.mpr ⟨?_, List.forall_mem_append.mpr ⟨hfirst.1, ?_⟩⟩
    · simp only [Call.points, List.forall_mem_cons]
      exact ⟨⟨le_refl _, hfirst.2⟩, ⟨by linarith [hfirst.2], by linarith⟩, List.forall_mem_nil _⟩
    · refine List.forall_mem_flatMap.mpr fun next hnext => ?_
      refine List.forall_mem_cons.mpr ⟨?_, (hlater next hnext).1⟩
      simp only [drawCut, Call.points, List.forall_mem_cons]
      exact ⟨⟨le_refl _, hfirst.2⟩, ⟨hfirst.2, le_refl _⟩, List.forall_mem_nil _⟩

end Frame

end Shape

end SequenceChart
