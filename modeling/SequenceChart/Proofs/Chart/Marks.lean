import SequenceChart.Chart.Document

/-! Pictures start with their size and end with a close. All that shapes draw in between are marks, as long as
icons draw nothing else. -/

namespace SequenceChart

variable {ι α : Type}

def AllMarks (calls : List (Call α)) : Prop := ∀ call ∈ calls, call.isMark = true

@[simp] theorem allMarks_nil : AllMarks ([] : List (Call α)) := nofun

@[simp] theorem allMarks_cons {call : Call α} {calls : List (Call α)} :
    AllMarks (call :: calls) ↔ call.isMark = true ∧ AllMarks calls :=
  List.forall_mem_cons

@[simp] theorem allMarks_append {calls later : List (Call α)} :
    AllMarks (calls ++ later) ↔ AllMarks calls ∧ AllMarks later :=
  List.forall_mem_append

theorem allMarks_flatMap {β : Type} {items : List β} {draw : β → List (Call α)}
    (h : ∀ item ∈ items, AllMarks (draw item)) : AllMarks (items.flatMap draw) := by
  intro call hcall
  obtain ⟨item, hitem, hcall⟩ := List.mem_flatMap.mp hcall
  exact h item hitem call hcall

variable [Length α]

/-- Icons that leave the start and the end of the picture to the chart. -/
class Icon.DrawsMarks (ι α : Type) [Length α] [Icon ι α] : Prop where
  allMarks : ∀ (icon : ι) (corner : Point α) (stroke : Stroke α) (fill : Color),
    AllMarks (Icon.draw icon corner stroke fill)

instance : Icon.DrawsMarks BuiltinIcon α where
  allMarks icon _ _ _ := by
    cases icon with
    | stickFigure => simp [Icon.draw, StickFigure.draw, Call.isMark]
    | drum => simp [Icon.draw, Drum.draw, Call.isMark]

namespace TextBlock

@[simp] theorem allMarks_draw (b : TextBlock α) (corner : Point α) (align : TextAlign) :
    AllMarks (b.draw corner align) := by
  intro call hcall
  obtain ⟨_, _, rfl⟩ := List.mem_map.mp hcall
  rfl

@[simp] theorem allMarks_drawLabel (b : TextBlock α) (corner : Point α) (background : Color) (align : TextAlign) :
    AllMarks (b.drawLabel corner background align) := by
  unfold drawLabel
  split <;> simp [Call.isMark]

end TextBlock

namespace Shape

theorem Message.allMarks_drawHead (m : Message α) (tip : Point α) (rightward : Bool) :
    AllMarks (m.drawHead tip rightward) := by
  unfold drawHead
  dsimp only
  split <;> simp [Call.isMark]

theorem Message.allMarks_draw (m : Message α) (g : Grid α) (point : Point α) : AllMarks (m.draw g point) := by
  unfold draw
  split
  · simp [drawLoop, Call.isMark, allMarks_drawHead]
  · simp [drawArrow, Call.isMark, allMarks_drawHead]

theorem Separator.allMarks_draw (s : Separator α) (g : Grid α) (point : Point α) : AllMarks (s.draw g point) := by
  unfold draw
  dsimp only
  split <;> simp [Call.isMark]

theorem Frame.allMarks_draw (f : Frame α) (g : Grid α) : AllMarks (f.draw g) := by
  have hheader : ∀ left top header, AllMarks (f.drawHeader left top header) := by
    simp [drawHeader, Call.isMark]
  unfold draw
  dsimp only
  split
  · exact allMarks_nil
  · simp only [allMarks_cons, allMarks_append, hheader, true_and]
    exact ⟨rfl, allMarks_flatMap fun part _ => allMarks_cons.mpr ⟨rfl, hheader _ _ _⟩⟩

variable [Icon ι α] [Icon.DrawsMarks ι α]

theorem ActorBox.allMarks_draw (b : ActorBox ι α) (point : Point α) : AllMarks (b.draw point) := by
  have hicon : ∀ x y, AllMarks (b.drawIcon x y) := by
    intro x y
    unfold drawIcon
    split
    · exact Icon.DrawsMarks.allMarks _ _ _ _
    · exact allMarks_nil
  simp [draw, Call.isMark, hicon]

theorem allMarks_draw (shape : Shape ι α) (g : Grid α) (point : Point α) : AllMarks (shape.draw g point) := by
  cases shape with
  | title t => simp [draw, Title.draw]
  | actorBox b => exact b.allMarks_draw point
  | lifeline l => exact allMarks_cons.mpr ⟨rfl, allMarks_nil⟩
  | message m => exact m.allMarks_draw g point
  | note n => simp [draw, NoteBox.draw, Call.isMark]
  | separator s => exact s.allMarks_draw g point
  | frame f => exact f.allMarks_draw g

end Shape

theorem Diagram.exists_marks [Icon ι α] [Icon.DrawsMarks ι α] (d : Diagram ι) (config : Config α) (font : Font α) :
    ∃ marks, (d.picture config font).calls = .setSize (d.picture config font).size :: (marks ++ [.close]) ∧
      AllMarks marks :=
  ⟨_, rfl, allMarks_flatMap fun placed _ => placed.item.allMarks_draw _ _⟩

end SequenceChart
