import SequenceChart.Chart.Layout
import SequenceChart.Proofs.Diagram.Walk

/-! Runs of items. Whatever has been laid out before stays and is not looked at again, so a run is that of its
items one after another. The frame of a block goes to where the list of frames ended before the block, which is in
front of the frames inside. -/

namespace SequenceChart

namespace LayoutRun

variable {ι α : Type}

def append (run later : LayoutRun ι α) : LayoutRun ι α :=
  ⟨later.next, run.shapes ++ later.shapes, run.frames ++ later.frames⟩

theorem append_assoc (first second third : LayoutRun ι α) :
    (first.append second).append third = first.append (second.append third) := by
  simp only [append, List.append_assoc]

theorem append_start (run : LayoutRun ι α) : run.append (.start run.next) = run := by
  simp only [append, start, List.append_nil]

theorem put_eq_append (run : LayoutRun ι α) (col : Nat) (shape : Shape ι α) :
    run.put col shape = run.append ((start run.next).put col shape) := by
  simp only [append, put, start, List.nil_append, List.append_nil]

end LayoutRun

namespace SegmentRun

variable {ι α : Type}

def append (run later : SegmentRun ι α) : SegmentRun ι α :=
  ⟨run.toLayoutRun.append later.toLayoutRun, run.headers ++ later.headers⟩

theorem append_assoc (first second third : SegmentRun ι α) :
    (first.append second).append third = first.append (second.append third) := by
  simp only [append, LayoutRun.append_assoc, List.append_assoc]

end SegmentRun

namespace Layout

variable {ι α : Type} [Length α] {l : Layout α}

/-- Whether items that are laid out below others are laid out as they are from that row on. -/
def Appends (ι : Type) (l : Layout α) (items : List Item) : Prop :=
  ∀ (run : LayoutRun ι α) depth, l.addItems depth run items = run.append (l.items run.next depth items)

def AppendsSegments (ι : Type) (l : Layout α) (segments : List (Segment Item)) : Prop :=
  ∀ (run : SegmentRun ι α) depth, l.addSegments depth run segments = run.append (l.segments run.next depth segments)

theorem item_block (l : Layout α) (row depth : Nat) (segments : List (Segment Item)) :
    (l.item row depth (.block segments) : LayoutRun ι α) =
      let run := l.segments row depth segments
      ⟨run.next, run.shapes,
        ⟨⟨row, 0⟩, l.frame run.headers (run.next - 1) depth (1 + Item.closingSegments segments)⟩ :: run.frames⟩ := rfl

theorem segments_cons_of_appends {body : List Item} {later : List (Segment Item)} (hbody : l.Appends ι body)
    (hlater : l.AppendsSegments ι later) (heading : Heading) (row depth : Nat) :
    (l.segments row depth (⟨heading, body⟩ :: later) : SegmentRun ι α) =
      SegmentRun.append ⟨l.items (row + 1) (depth + 1) body, [l.frameHeader row heading]⟩
        (l.segments (l.items (row + 1) (depth + 1) body : LayoutRun ι α).next depth later) := by
  have hinner := hbody (LayoutRun.start row).skipRow (depth + 1)
  rw [segments, addSegments, hlater]
  dsimp only [LayoutRun.start] at hinner ⊢
  rw [hinner]
  rfl

theorem appendsSegments_of_bodies {segments : List (Segment Item)} (hbodies : ∀ s ∈ segments, l.Appends ι s.body) :
    l.AppendsSegments ι segments := by
  induction segments with
  | nil =>
    intro run depth
    simp only [Layout.segments, addSegments, SegmentRun.append, LayoutRun.append_start, List.append_nil]
  | cons s later ih =>
    obtain ⟨heading, body⟩ := s
    obtain ⟨hbody, hrest⟩ := List.forall_mem_cons.mp hbodies
    have hlater := ih hrest
    intro run depth
    rw [addSegments, hbody, hlater, segments_cons_of_appends hbody hlater]
    exact SegmentRun.append_assoc run ⟨l.items (run.next + 1) (depth + 1) body, [l.frameHeader run.next heading]⟩ _

theorem appends_cons {first : Item} {later : List Item}
    (hfirst : ∀ (run : LayoutRun ι α) depth, l.addItem depth run first = run.append (l.item run.next depth first))
    (hlater : l.Appends ι later) : l.Appends ι (first :: later) := by
  intro run depth
  rw [addItems, hlater, hfirst, LayoutRun.append_assoc]
  exact congrArg run.append (hlater (l.item run.next depth first) depth).symm

theorem appends_items (l : Layout α) (items : List Item) : l.Appends ι items := by
  induction items using Item.forest_induction with
  | nil => exact fun run _ => run.append_start.symm
  | action a later ih => exact appends_cons (fun run _ => run.put_eq_append _ _) ih
  | note n later ih => exact appends_cons (fun run _ => run.put_eq_append _ _) ih
  | divider d later ih => exact appends_cons (fun run _ => run.put_eq_append _ _) ih
  | block segments later ihbodies ih =>
    refine appends_cons (fun run depth => ?_) ih
    have hframe : ∀ frame inside, (run.frames ++ inside).insertIdx run.frames.length frame =
        run.frames ++ frame :: inside :=
      fun frame inside => List.modifyTailIdx_add (List.cons frame) 0 run.frames inside
    rw [addItem, appendsSegments_of_bodies ihbodies, item_block]
    simp only [SegmentRun.append, LayoutRun.append, List.nil_append, hframe]

theorem items_cons (l : Layout α) (row depth : Nat) (first : Item) (later : List Item) :
    (l.items row depth (first :: later) : LayoutRun ι α) =
      (l.item row depth first).append (l.items (l.item row depth first : LayoutRun ι α).next depth later) :=
  l.appends_items later (l.item row depth first) depth

theorem segments_cons (l : Layout α) (row depth : Nat) (heading : Heading) (body : List Item)
    (later : List (Segment Item)) :
    (l.segments row depth (⟨heading, body⟩ :: later) : SegmentRun ι α) =
      SegmentRun.append ⟨l.items (row + 1) (depth + 1) body, [l.frameHeader row heading]⟩
        (l.segments (l.items (row + 1) (depth + 1) body : LayoutRun ι α).next depth later) :=
  segments_cons_of_appends (l.appends_items body) (appendsSegments_of_bodies fun s _ => l.appends_items s.body)
    heading row depth

end Layout

end SequenceChart
