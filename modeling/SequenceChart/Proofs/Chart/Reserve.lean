import SequenceChart.Proofs.Chart.Ample

/-! Room above and below. A shape that stands on a row draws in the room that its own floors ask for above and below
that row, but for loops with a high label: the label stands beside the middle of the loop, so half of what it is
higher than the loop hangs below the row, where the floor has room for an arrow only. -/

namespace SequenceChart

def Constraint.floor? {α : Type} (row : Nat) : Constraint α → Option (Sides α)
  | .floor pos sides => if pos.row = row then some sides else none
  | _ => none

/-- The most that floors on a row ask for on one side, and nothing if there are none. -/
def floorRoom (side : Sides Rat → Rat) (row : Nat) (constraints : List (Constraint Rat)) : Rat :=
  (constraints.filterMap (Constraint.floor? row)).foldr (fun sides room => max (side sides) room) 0

theorem le_floorRoom (side : Sides Rat → Rat) {constraints : List (Constraint Rat)} {pos : GridPos} {sides : Sides Rat}
    (h : .floor pos sides ∈ constraints) : side sides ≤ floorRoom side pos.row constraints := by
  have hmem : sides ∈ constraints.filterMap (Constraint.floor? pos.row) :=
    List.mem_filterMap.mpr ⟨_, h, if_pos rfl⟩
  unfold floorRoom
  generalize constraints.filterMap (Constraint.floor? pos.row) = floors at hmem ⊢
  induction floors with
  | nil => contradiction
  | cons first later ih =>
    cases List.mem_cons.mp hmem with
    | inl hfirst => exact hfirst ▸ le_max_left _ _
    | inr hlater => exact le_max_of_le_right (ih hlater)

def KeepsRoom (font : Font Rat) (constraints : List (Constraint Rat)) (row : Nat) (y : Rat) (calls : List (Call Rat)) :
    Prop :=
  DrawnDown font (y - floorRoom Sides.top row constraints) (y + floorRoom Sides.bottom row constraints) calls

theorem Outline.Bounds.keepsRoom {o : Outline Rat} {font : Font Rat} {calls : List (Call Rat)} (h : o.Bounds font calls)
    {constraints : List (Constraint Rat)} {pos : GridPos} {sides : Sides Rat}
    (hfloor : .floor pos sides ∈ constraints) {y : Rat} (htop : y - sides.top ≤ o.top)
    (hbottom : o.bottom ≤ y + sides.bottom) : KeepsRoom font constraints pos.row y calls :=
  h.down ((sub_le_sub_left (le_floorRoom Sides.top hfloor) y).trans htop)
    (hbottom.trans (add_le_add_right (le_floorRoom Sides.bottom hfloor) y))

theorem TextBlock.height_of_isEmpty {b : TextBlock Rat} (h : b.isEmpty = true) : b.size.height = 0 := by
  have hrows : b.rows = [] := List.isEmpty_iff.mp h
  simp [size, hrows]

namespace Shape

section Standing

variable {ι : Type}

/-- Whether a shape is drawn where it stands; a lifeline and a frame reach from there to other rows. -/
def StandsOnRow : Shape ι Rat → Prop
  | lifeline _ | frame _ => False
  | _ => True

/-- Whether a shape is a loop whose label is too high for it. -/
def LabelHangs : Shape ι Rat → Prop
  | message m => m.isLoop = true ∧ m.loop.height + 2 * m.descent < m.label.size.height
  | _ => False

instance : DecidablePred (LabelHangs (ι := ι))
  | message _ => inferInstanceAs (Decidable (_ ∧ _))
  | title _ | actorBox _ | lifeline _ | note _ | separator _ | frame _ => .isFalse not_false

theorem LabelHangs.standsOnRow {shape : Shape ι Rat} (h : shape.LabelHangs) : shape.StandsOnRow := by
  cases shape with
  | message m => trivial
  | _ => exact h.elim

end Standing

section Keeps

variable {font : Font Rat} (hfont : font.Nonneg)

include hfont

theorem Title.keepsRoom {t : Title Rat} (h : t.text.MeasuredBy font) (hgap : 0 ≤ t.gap) (pos : GridPos) (cols : Nat)
    (g : Grid Rat) (point : Point Rat) :
    KeepsRoom font (t.constraints pos cols) pos.row point.y (t.draw g point) := by
  refine (bounds_draw hfont h g point).keepsRoom List.mem_cons_self ?_ ?_ <;>
    dsimp only [extent, Outline.ofBox, Sides.vertical] <;> linarith

theorem ActorBox.keepsRoom {ι : Type} [Icon ι Rat] [Icon.Contained ι] {b : ActorBox ι Rat}
    (h : b.label.MeasuredBy font) (hpadding : Icon.overhang ≤ b.padding) (hgap : Icon.overhang ≤ b.iconGap)
    (pos : GridPos) (point : Point Rat) : KeepsRoom font (b.constraints pos) pos.row point.y (b.draw point) := by
  refine (bounds_draw hfont h hpadding hgap point).keepsRoom List.mem_cons_self ?_ ?_ <;>
    dsimp only [extent, Outline.ofBox] <;> split <;> dsimp only <;> linarith

theorem NoteBox.keepsRoom {n : NoteBox Rat} (h : n.text.MeasuredBy font) (hpadding : 0 ≤ n.padding)
    (hfold : 0 ≤ n.fold) (hdescent : 0 ≤ n.descent) (pos : GridPos) (g : Grid Rat) (point : Point Rat) :
    KeepsRoom font (n.constraints pos) pos.row point.y (n.draw g point) := by
  refine (bounds_draw hfont h hpadding hfold g point).keepsRoom List.mem_cons_self ?_ ?_ <;>
    dsimp only [extent, Sides.vertical] <;> linarith

theorem Separator.keepsRoom {s : Separator Rat} (h : s.text.MeasuredBy font) (hpadding : 0 ≤ s.padding)
    (pos : GridPos) (cols : Nat) (g : Grid Rat) (point : Point Rat) :
    KeepsRoom font (s.constraints pos cols) pos.row point.y (s.draw g point) := by
  refine (bounds_draw hfont h hpadding g point).keepsRoom List.mem_cons_self ?_ ?_ <;>
    dsimp only [extent, Sides.vertical] <;> linarith

namespace Message

variable {m : Message Rat} (h : m.label.MeasuredBy font)

include h

theorem keepsRoom_of_arrow (hline : m.isLoop = false) (habove : 4 ≤ m.labelGap) (hbelow : 4 ≤ m.descent)
    (pos : GridPos) (g : Grid Rat) (point : Point Rat) :
    KeepsRoom font (m.constraints pos) pos.row point.y (m.draw g point) := by
  have hlabel := h.height_nonneg
  have hroom : max 4 (m.labelGap + m.label.size.height) ≤ m.label.size.height + m.labelGap :=
    max_le (by linarith) (by linarith)
  unfold draw constraints
  rw [hline]
  refine (bounds_drawArrow hfont h (by linarith) point _).keepsRoom
    (List.mem_cons_of_mem _ List.mem_cons_self) ?_ ?_ <;> dsimp only [arrowExtent, Sides.vertical] <;> linarith

omit hfont h in
theorem floorRoom_loop (hloop : m.isLoop = true) (hbelow : 0 ≤ m.descent) (pos : GridPos) :
    floorRoom Sides.bottom pos.row (m.constraints pos) = m.descent := by
  unfold constraints
  rw [hloop]
  simp [floorRoom, List.filterMap_cons, Constraint.floor?, Sides.vertical, hbelow]

theorem keepsRoom_loop_iff (hloop : m.isLoop = true) (hwidth : 8 ≤ m.loop.width) (hheight : 0 ≤ m.loop.height)
    (habove : 4 ≤ m.labelGap) (hbelow : 4 ≤ m.descent) (pos : GridPos) (g : Grid Rat) (point : Point Rat) :
    KeepsRoom font (m.constraints pos) pos.row point.y (m.draw g point) ↔
      m.label.size.height ≤ m.loop.height + 2 * m.descent := by
  unfold draw
  rw [hloop]
  constructor
  · intro hkeeps
    -- An empty label is not drawn; any other one shows by the rectangle behind it how far down it reaches.
    by_cases hempty : m.label.isEmpty = true
    · rw [TextBlock.height_of_isEmpty hempty]
      linarith
    · have hlabel : .rect ⟨point.x + m.loop.width + m.labelGap,
          point.y - m.loop.height / 2.0 - m.label.size.height / 2.0⟩ m.label.size none (some m.labelFill) ∈
            m.drawLoop point := by
        refine List.mem_cons_of_mem _ (List.mem_append_right _ ?_)
        rw [TextBlock.drawLabel, if_neg hempty]
        exact List.mem_cons_self
      have hbottom := (hkeeps _ hlabel _ (List.mem_cons_of_mem _ List.mem_cons_self)).2
      rw [floorRoom_loop hloop (by linarith)] at hbottom
      dsimp only at hbottom
      linarith
  · intro hlow
    have hlabel := h.height_nonneg
    have hloopHigh := le_max_left m.loop.height m.label.size.height
    have hlabelHigh := le_max_right m.loop.height m.label.size.height
    have hroom : max (max m.loop.height 4) ((m.loop.height + m.label.size.height) / 2) ≤
        max m.loop.height m.label.size.height + m.labelGap :=
      max_le (max_le (by linarith) (by linarith)) (by linarith)
    have hbelowRoom : max 4 ((m.label.size.height - m.loop.height) / 2) ≤ m.descent :=
      max_le hbelow (by linarith)
    unfold constraints
    rw [hloop]
    refine (bounds_drawLoop hfont h hwidth hheight (by linarith) point).keepsRoom
      (List.mem_cons_of_mem _ List.mem_cons_self) ?_ ?_ <;> dsimp only [loopExtent, Sides.vertical] <;> linarith

end Message

end Keeps

end Shape

namespace Layout

variable {ι : Type} [Icon ι Rat] [Icon.Contained ι] {l : Layout Rat} (hample : l.config.Ample)
  (hfont : l.font.Nonneg)

include hample hfont

omit [Icon ι Rat] [Icon.Contained ι] in
theorem keepsRoom_message_iff (a : Action) (pos : GridPos) (g : Grid Rat) (point : Point Rat) :
    KeepsRoom l.font ((l.message a).constraints pos) pos.row point.y ((l.message a).draw g point) ↔
      ¬ (Shape.message (l.message a) : Shape ι Rat).LabelHangs := by
  have hlabel : (l.message a).label.MeasuredBy l.font := l.measuredBy_text a.message hample.fontSize _ _
  unfold Shape.LabelHangs
  rw [not_and, not_lt]
  cases hloop : (l.message a).isLoop with
  | false =>
    refine iff_of_true ?_ (fun hno => absurd hno Bool.false_ne_true)
    exact Shape.Message.keepsRoom_of_arrow hfont hlabel hloop hample.headAbove hample.headBelow pos g point
  | true =>
    refine (Shape.Message.keepsRoom_loop_iff hfont hlabel hloop hample.loopWidth hample.loopHeight hample.headAbove
      hample.headBelow pos g point).trans ?_
    exact ⟨fun hlow _ => hlow, fun hlow => hlow rfl⟩

theorem keepsRoom_stands_iff {d : Diagram ι} {placed : Placed (Shape ι Rat)} (h : l.Stands d placed)
    (hrow : placed.item.StandsOnRow) (cols : Nat) (g : Grid Rat) (point : Point Rat) :
    KeepsRoom l.font (placed.item.constraints placed.pos cols) placed.pos.row point.y (placed.item.draw g point) ↔
      ¬ placed.item.LabelHangs := by
  have hoverhang : 0 ≤ Icon.overhang := by norm_num [Icon.overhang]
  cases h with
  | @actorBox actor hactor footer =>
    refine iff_of_true ?_ not_false
    have hlabel := l.measuredBy_text actor.label hample.fontSize l.config.style.actorText false
    exact Shape.ActorBox.keepsRoom hfont hlabel hample.actorPadding hample.iconGap _ point
  | lifeline hactor => exact hrow.elim
  | @title title htitle =>
    refine iff_of_true ?_ not_false
    have htext := l.measuredBy_text title hample.titleFontSize l.config.style.actorText true
    exact Shape.Title.keepsRoom hfont htext (hoverhang.trans hample.actorPadding) _ cols g point
  | message ha => exact keepsRoom_message_iff hample hfont _ _ g point
  | @note n row hn =>
    refine iff_of_true ?_ not_false
    have htext := l.measuredBy_text n.message hample.fontSize l.config.style.noteText false
    exact Shape.NoteBox.keepsRoom hfont htext hample.notePadding hample.noteFold hample.arrowDescent.le _ g point
  | @separator divider row hdivider =>
    refine iff_of_true ?_ not_false
    have htext := l.measuredBy_text (divider.message.getD "") hample.fontSize l.config.style.messageText false
    exact Shape.Separator.keepsRoom hfont htext hample.dividerPadding _ cols g point
  | frame hs levels => exact hrow.elim

end Layout

namespace Diagram

/-- Whatever stands on a row draws in the room that its floors ask for there, unless it is a loop whose label is
higher than the loop by more than twice the room below an arrow: exactly then the label leaves the room. -/
theorem keepsRoom_iff {ι : Type} [Icon ι Rat] [Icon.Contained ι] (d : Diagram ι) (settings : List Instruction)
    {font : Font Rat} (hfont : font.Nonneg) {placed : Placed (Shape ι Rat)}
    (hplaced : placed ∈ (d.layout (Config.standard.withInstructions settings) font).placements d)
    (hrow : placed.item.StandsOnRow) (g : Grid Rat) (point : Point Rat) :
    KeepsRoom font (placed.item.constraints placed.pos d.lastCol) placed.pos.row point.y (placed.item.draw g point) ↔
      ¬ placed.item.LabelHangs :=
  Layout.keepsRoom_stands_iff (Config.instructed_withInstructions settings).ample hfont
    (Layout.stands_of_mem hplaced) hrow d.lastCol g point

def hangingSample : String := "a->a: 1\\n2\\n3\na->b"

theorem keepsRoom_iff_hangingSample :
    ∃ (d : Diagram BuiltinIcon) (placed : Placed (Shape BuiltinIcon Rat)) (g : Grid Rat),
      load hangingSample = .ok d ∧ (Font.plain : Font Rat).Nonneg ∧
      placed ∈ (d.layout (Config.standard.withInstructions []) .plain).placements d ∧
      placed.item.StandsOnRow ∧ g = (d.graphic .standard .plain).resolve.1.grid ∧
      ¬ KeepsRoom .plain (placed.item.constraints placed.pos d.lastCol) placed.pos.row
        (g.point placed.pos.row placed.pos.col).y
        (placed.item.draw g (g.point placed.pos.row placed.pos.col)) := by
  have hloop : ((load hangingSample).toOption.map fun d =>
      ((d.layout (Config.standard.withInstructions []) .plain).placements d).any
        fun placed => decide placed.item.LabelHangs) = some true := by
    decide +kernel
  obtain ⟨d, hload, hloop⟩ := toOption_map_eq_some.mp hloop
  obtain ⟨placed, hplaced, hhangs⟩ := List.any_eq_true.mp hloop
  have hhangs := of_decide_eq_true hhangs
  have hfont := Font.nonneg_plain
  have hkeeps := keepsRoom_iff d [] hfont hplaced hhangs.standsOnRow
    (d.graphic .standard .plain).resolve.1.grid
  exact ⟨d, placed, _, hload, hfont, hplaced, hhangs.standsOnRow, rfl, fun hroom => (hkeeps _).mp hroom hhangs⟩

end Diagram

end SequenceChart
