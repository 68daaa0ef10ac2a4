import SequenceChart.Proofs.Chart.Instructions
import SequenceChart.Proofs.Shape.Extent

/-! Configurations with ample distances, and what stands where under them. Instructions change the margin, the font
size and the style only, so every configuration they lead to is ample. -/

namespace SequenceChart

namespace Config

/-- Distances that leave room for arrow heads, for icons and for the rows of texts. -/
structure Ample (c : Config Rat) : Prop extends c.Roomy where
  margin : 0 ≤ c.margin
  titleFontSize : 0 ≤ c.titleFontSize
  actorPadding : Icon.overhang ≤ c.actorPadding
  iconGap : Icon.overhang ≤ c.iconGap
  actorGap : 0 ≤ c.actorGap
  headLength : 4 ≤ c.messagePadding
  headAbove : 4 ≤ c.labelGap
  headBelow : 4 ≤ c.arrowDescent
  loopWidth : 8 ≤ c.selfLoopWidth
  loopHeight : 0 ≤ c.selfLoopHeight
  notePadding : 0 ≤ c.notePadding
  noteOffset : 0 ≤ c.noteOffset
  noteFold : 0 ≤ c.noteFold
  dividerPadding : 0 ≤ c.dividerPadding

def Instructed (c : Config Rat) : Prop :=
  ∃ fontSize margin style, 0 < fontSize ∧ 0 ≤ margin ∧ c = { standard with fontSize, margin, style }

theorem Instructed.instruct {c : Config Rat} (h : c.Instructed) (setting : Instruction) :
    (c.instruct setting).Instructed := by
  obtain ⟨fontSize, margin, style, hsize, hmargin, rfl⟩ := h
  rw [instruct_eq]
  refine ⟨_, _, _, ?_, ?_, rfl⟩
  · cases hgiven : (fontSize? setting : Option Rat) with
    | none => exact hsize
    | some size => exact Gaps.zero_eq ▸ pos_of_fontSize? hgiven
  · cases hgiven : (margin? setting : Option Rat) with
    | none => exact hmargin
    | some margin => exact Gaps.zero_eq ▸ nonneg_of_margin? hgiven

theorem instructed_withInstructions (settings : List Instruction) :
    (standard.withInstructions settings : Config Rat).Instructed := by
  have hrun : ∀ (settings : List Instruction) {c : Config Rat}, c.Instructed →
      (c.withInstructions settings).Instructed := by
    intro settings
    induction settings with
    | nil => exact id
    | cons setting later ih => exact fun h => ih (h.instruct setting)
  exact hrun settings ⟨12.0, 10.0, .standard, by norm_num, by norm_num, rfl⟩

theorem Instructed.ample {c : Config Rat} (h : c.Instructed) : c.Ample := by
  obtain ⟨fontSize, margin, style, hsize, hmargin, rfl⟩ := h
  have hroomy : ({ standard with fontSize, margin, style } : Config Rat).Roomy :=
    { Config.roomy_standard with fontSize := hsize.le }
  refine ⟨hroomy, hmargin, ?_, ?_, ?_, ?_, ?_, ?_, ?_, ?_, ?_, ?_, ?_, ?_, ?_⟩ <;> norm_num [standard, Icon.overhang]

theorem Instructed.noteOffset_pos {c : Config Rat} (h : c.Instructed) : 0 < c.noteOffset := by
  obtain ⟨fontSize, margin, style, -, -, rfl⟩ := h
  norm_num [standard]

end Config

namespace Layout

variable {ι : Type}

theorem measuredBy_text (l : Layout Rat) (text : String) {size : Rat} (hsize : 0 ≤ size) (color : Color)
    (bold : Bool) : (l.text text size color bold).MeasuredBy l.font :=
  ⟨text, _, hsize, rfl⟩

inductive Stands (l : Layout Rat) (d : Diagram ι) : Placed (Shape ι Rat) → Prop where
  | actorBox {actor : Actor ι} (hactor : actor ∈ d.actors) (footer : Bool) :
    Stands l d ⟨⟨if footer then l.rows else 1, actorCol actor.rank⟩, .actorBox (l.actorBox actor footer)⟩
  | lifeline {actor : Actor ι} (hactor : actor ∈ d.actors) :
    Stands l d ⟨⟨1, actorCol actor.rank⟩, .lifeline (l.lifeline actor)⟩
  | title {title : String} (htitle : title ∈ d.title) : Stands l d ⟨⟨0, 0⟩, .title (l.title title)⟩
  | message {a : Action} {row : Nat} (ha : (.action a, row) ∈ (Item.entriesAll d.items).zipIdx 2) :
    Stands l d ⟨⟨row, l.col a.sender⟩, .message (l.message a)⟩
  | note {n : Note} {row : Nat} (hn : (.note n, row) ∈ (Item.entriesAll d.items).zipIdx 2) :
    Stands l d ⟨⟨row, l.col n.first⟩, .note (l.note n)⟩
  | separator {divider : Divider} {row : Nat}
    (hdivider : (.divider divider, row) ∈ (Item.entriesAll d.items).zipIdx 2) :
    Stands l d ⟨⟨row, 0⟩, .separator (l.separator divider)⟩
  | frame {s : BlockSite} (hs : s ∈ d.blocks) (levels : Nat) :
    Stands l d ⟨⟨s.row, 0⟩, .frame { l.frameAt s with marginLevels := levels }⟩

theorem stands_of_mem {l : Layout Rat} {d : Diagram ι} {placed : Placed (Shape ι Rat)}
    (h : placed ∈ l.placements d) : l.Stands d placed := by
  unfold placements at h
  simp only [List.mem_append] at h
  obtain (((h | h) | h) | h) | h := h
  · obtain ⟨actor, hactor, h⟩ := List.mem_flatMap.mp h
    obtain ⟨footer, rfl⟩ := exists_footer_of_mem_boxes h
    exact .actorBox hactor footer
  · obtain ⟨actor, hactor, rfl⟩ := List.mem_map.mp h
    exact .lifeline hactor
  · obtain ⟨title, htitle, rfl⟩ := List.mem_map.mp h
    exact .title (Option.mem_toList.mp htitle)
  · rw [shapes_items] at h
    obtain ⟨⟨e, row⟩, he, h⟩ := List.mem_filterMap.mp h
    cases e with
    | action a =>
      obtain rfl := Option.some.inj h
      exact .message he
    | note n =>
      obtain rfl := Option.some.inj h
      exact .note he
    | divider divider =>
      obtain rfl := Option.some.inj h
      exact .separator he
    | header heading => contradiction
  · obtain ⟨frame, hframe, rfl⟩ := List.mem_map.mp h
    obtain ⟨first, hfirst, levels, rfl⟩ := mem_reserveMargins hframe
    rw [frames_items] at hfirst
    obtain ⟨s, hs, rfl⟩ := List.mem_map.mp hfirst
    exact .frame hs levels

end Layout

end SequenceChart
