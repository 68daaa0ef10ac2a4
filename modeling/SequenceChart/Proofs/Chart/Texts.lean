import SequenceChart.Proofs.Chart.Outlines
import SequenceChart.Proofs.Diagram.Icons

/-! The texts of a picture. Every text of a diagram is written once, in an order that the diagram alone settles:
fonts and configurations move the rows of a text, but leave none of them out and add none. -/

namespace SequenceChart

namespace Text

theorem rows_eq_splitOn (text : List Char) : rows text = text.splitOn '\n' := by
  induction text with
  | nil => rfl
  | cons c rest ih =>
    rw [List.splitOn, List.splitOnP_cons_eq_if_modifyHead, ← List.splitOn, ← ih]
    by_cases hfeed : c = '\n'
    · subst hfeed
      rfl
    · rw [if_neg (by simpa using hfeed), rows]
      · cases hrows : rows rest with
        | nil => exact absurd hrows (rows_ne_nil rest)
        | cons row later => rfl
      · exact hfeed

def written (text : String) : List String :=
  if text = "" then [] else (text.toList.splitOn '\n').map String.ofList

end Text

variable {ι α : Type}

namespace Call

def text? : Call α → Option String
  | .text _ content _ => some content
  | _ => none

def texts (calls : List (Call α)) : List String := calls.filterMap text?

theorem texts_cons (call : Call α) (calls : List (Call α)) :
    texts (call :: calls) = call.text?.toList ++ texts calls := by
  unfold texts
  cases h : call.text? with
  | none => rw [List.filterMap_cons_none h]; rfl
  | some text => rw [List.filterMap_cons_some h]; rfl

theorem texts_append (calls later : List (Call α)) : texts (calls ++ later) = texts calls ++ texts later :=
  List.filterMap_append

theorem texts_flatMap {β : Type} (items : List β) (draw : β → List (Call α)) :
    texts (items.flatMap draw) = items.flatMap fun item => texts (draw item) := by
  induction items with
  | nil => rfl
  | cons item later ih => rw [List.flatMap_cons, texts_append, ih, List.flatMap_cons]

end Call

open Call (texts)

variable [Length α]

namespace TextBlock

def texts (b : TextBlock α) : List String := b.rows.map (·.text)

omit [Length α] in
theorem texts_eq_nil {b : TextBlock α} (h : b.isEmpty = true) : b.texts = [] := by
  rw [texts, List.isEmpty_iff.mp h, List.map_nil]

theorem texts_draw (b : TextBlock α) (corner : Point α) (align : TextAlign) :
    Call.texts (b.draw corner align) = b.texts := by
  rw [draw, Call.texts, List.filterMap_map]
  conv_rhs => rw [TextBlock.texts, ← List.zipIdx_map_fst 0 b.rows, List.map_map, ← List.filterMap_eq_map]
  rfl

theorem texts_drawLabel (b : TextBlock α) (corner : Point α) (background : Color) (align : TextAlign) :
    Call.texts (b.drawLabel corner background align) = b.texts := by
  unfold drawLabel
  split
  · rename_i hempty
    exact (texts_eq_nil hempty).symm
  · rw [Call.texts_cons, texts_draw]
    rfl

theorem texts_measure (font : Font α) (text : String) (style : TextStyle α) :
    (measure font text style).texts = Text.written text := by
  have hrows : ∀ texts : List String, (List.zipWith (fun row (size : Size α) => (⟨row, size.width⟩ : TextRow α))
      texts (texts.map fun row => font.measure row style.size)).map (·.text) = texts := by
    intro texts
    induction texts with
    | nil => rfl
    | cons row later ih => exact congrArg (List.cons row) ih
  rw [TextBlock.texts, measure, hrows, Text.rows_eq_splitOn]
  exact if_congr String.isEmpty_iff rfl rfl

end TextBlock

namespace Shape

theorem Title.texts_draw (t : Title α) (g : Grid α) (point : Point α) : texts (t.draw g point) = t.text.texts := by
  unfold draw
  exact t.text.texts_draw _ _

theorem ActorBox.texts_draw [Icon ι α] {b : ActorBox ι α}
    (hicon : ∀ ref ∈ b.icon, ∀ (corner : Point α) stroke fill, texts (Icon.draw ref.icon corner stroke fill) = [])
    (point : Point α) : texts (b.draw point) = b.label.texts := by
  have hnone : ∀ x y, texts (b.drawIcon x y) = [] := by
    intro x y
    unfold drawIcon
    split
    · exact hicon _ ‹_› _ _ _
    · rfl
  unfold draw
  dsimp only
  rw [Call.texts_cons, Call.texts_append, hnone, b.label.texts_draw]
  rfl

theorem Message.texts_drawHead (m : Message α) (tip : Point α) (rightward : Bool) :
    texts (m.drawHead tip rightward) = [] := by
  unfold drawHead
  dsimp only
  split <;> rfl

theorem Message.texts_draw (m : Message α) (g : Grid α) (point : Point α) :
    texts (m.draw g point) = m.label.texts := by
  unfold draw
  split
  · unfold drawLoop
    dsimp only
    rw [Call.texts_cons, Call.texts_append, texts_drawHead, m.label.texts_drawLabel]
    rfl
  · unfold drawArrow
    dsimp only
    rw [Call.texts_cons, Call.texts_append, texts_drawHead, m.label.texts_drawLabel]
    rfl

theorem NoteBox.texts_draw (n : NoteBox α) (g : Grid α) (point : Point α) : texts (n.draw g point) = n.text.texts := by
  unfold draw
  dsimp only
  rw [Call.texts_cons, Call.texts_cons, n.text.texts_draw]
  rfl

theorem Separator.texts_draw (s : Separator α) (g : Grid α) (point : Point α) :
    texts (s.draw g point) = s.text.texts := by
  unfold draw
  dsimp only
  split
  · exact s.text.texts_drawLabel _ _ _
  · rw [Call.texts_cons, s.text.texts_draw]
    rfl
  · rw [Call.texts_cons, s.text.texts_draw]
    rfl
  · rw [Call.texts_cons, s.text.texts_drawLabel]
    rfl

def FrameHeader.texts (h : FrameHeader α) : List String := h.tab.texts ++ h.message.texts

theorem Frame.texts_drawHeader (f : Frame α) (left top : α) (header : FrameHeader α) :
    texts (f.drawHeader left top header) = header.texts := by
  unfold drawHeader
  dsimp only
  rw [Call.texts_cons, Call.texts_append, header.tab.texts_draw, header.message.texts_drawLabel]
  rfl

theorem Frame.texts_draw (f : Frame α) (g : Grid α) : texts (f.draw g) = f.segments.flatMap FrameHeader.texts := by
  have hparts : ∀ y, f.segments.zip (f.tops y) = f.segments.map fun h => (h, y h.row - (f.tabSize h).height) :=
    fun y => (List.map_prod_left_eq_zip ..).symm
  unfold draw
  dsimp only
  rw [hparts]
  cases f.segments with
  | nil => rfl
  | cons first later =>
    rw [List.map_cons]
    dsimp only
    rw [Call.texts_cons, Call.texts_append, texts_drawHeader, Call.texts_flatMap, List.flatMap_map, List.flatMap_cons]
    refine congrArg (first.texts ++ ·) (List.flatMap_congr fun h _ => ?_)
    dsimp only
    rw [Call.texts_cons, texts_drawHeader]
    rfl

end Shape

def Actor.written (a : Actor ι) : List String :=
  (if a.inHeader then Text.written a.label else []) ++ if a.inFooter then Text.written a.label else []

/-- What an entry has to say on its own row. A header is written with the frame of its block. -/
def Entry.written : Entry → List String
  | .action a => Text.written a.message
  | .note n => Text.written n.message
  | .divider d => Text.written (d.message.getD "")
  | .header _ => []

/-- The label of a segment, then its condition in brackets if it has one. -/
def Heading.written (h : Heading) : List String :=
  Text.written h.label ++ if h.message = "" then [] else Text.written ("[" ++ h.message ++ "]")

theorem written_bracketed (message : String) :
    Text.written (bracketed message) = if message = "" then [] else Text.written ("[" ++ message ++ "]") := by
  unfold bracketed
  by_cases hmessage : message = ""
  · rw [if_pos (String.isEmpty_iff.mpr hmessage), if_pos hmessage]
    rfl
  · rw [if_neg (mt String.isEmpty_iff.mp hmessage), if_neg hmessage]

theorem Item.map_snd_parts (row : Nat) (segments : List (Segment Item)) :
    (parts row segments).map Prod.snd = segments := by
  induction segments generalizing row with
  | nil => rfl
  | cons s later ih => rw [parts, List.map_cons, ih]

def Placed.texts [Icon ι α] (g : Grid α) (placed : Placed (Shape ι α)) : List String :=
  Call.texts (placed.item.draw g (g.point placed.pos.row placed.pos.col))

namespace Layout

theorem texts_text (l : Layout α) (text : String) (size : α) (color : Color) (bold : Bool) :
    (l.text text size color bold).texts = Text.written text :=
  TextBlock.texts_measure ..

theorem texts_frameHeader (l : Layout α) (row : Nat) (heading : Heading) :
    (l.frameHeader row heading).texts = heading.written := by
  unfold frameHeader Shape.FrameHeader.texts
  dsimp only
  rw [texts_text, texts_text, written_bracketed]
  rfl

theorem texts_frameAt (l : Layout α) (s : BlockSite) (g : Grid α) :
    texts ((l.frameAt s).draw g) = s.segments.flatMap fun segment => segment.heading.written := by
  have hheaders : (l.frameAt s).segments = s.parts.map fun part => l.frameHeader part.1 part.2.heading := rfl
  rw [Shape.Frame.texts_draw, hheaders, List.flatMap_map]
  simp only [texts_frameHeader]
  conv_rhs => rw [← Item.map_snd_parts s.row s.segments, List.flatMap_map]
  rfl

variable [Icon ι α]

theorem texts_boxes (l : Layout α) {actor : Actor ι}
    (hicon : ∀ ref ∈ actor.icon, ∀ (corner : Point α) stroke fill, texts (Icon.draw ref.icon corner stroke fill) = [])
    (g : Grid α) : (l.boxes actor).flatMap (Placed.texts g) = actor.written := by
  have hbox : ∀ pos footer, Placed.texts g ⟨pos, .actorBox (l.actorBox actor footer)⟩ = Text.written actor.label := by
    intro pos footer
    exact (Shape.ActorBox.texts_draw (b := l.actorBox actor footer) hicon _).trans (l.texts_text ..)
  rw [boxes, List.flatMap_append, Actor.written]
  congr 1
  · split
    · rw [List.flatMap_singleton, hbox]
    · rfl
  · split
    · rw [List.flatMap_singleton, hbox]
    · rfl

theorem texts_entries (l : Layout α) (row : Nat) (entries : List Entry) (g : Grid α) :
    ((entries.zipIdx row).filterMap (l.placedEntry (ι := ι))).flatMap (Placed.texts g) =
      entries.flatMap Entry.written := by
  induction entries generalizing row with
  | nil => rfl
  | cons e later ih =>
    rw [List.zipIdx_cons, List.flatMap_cons, ← ih]
    cases e with
    | action a =>
      have hhere := ((l.message a).texts_draw g (g.point row (l.col a.sender))).trans (l.texts_text ..)
      exact congrArg (· ++ _) hhere
    | note n =>
      have hhere := ((l.note n).texts_draw g (g.point row (l.col n.first))).trans (l.texts_text ..)
      exact congrArg (· ++ _) hhere
    | divider d =>
      have hhere := ((l.separator d).texts_draw g (g.point row 0)).trans (l.texts_text ..)
      exact congrArg (· ++ _) hhere
    | header heading => rfl

theorem texts_unframed (l : Layout α) {d : Diagram ι}
    (hicons : ∀ a ∈ d.actors, ∀ ref ∈ a.icon, ∀ (corner : Point α) stroke fill,
      texts (Icon.draw ref.icon corner stroke fill) = [])
    (g : Grid α) :
    (l.unframed d).flatMap (Placed.texts g) =
      d.actors.flatMap Actor.written ++ d.title.toList.flatMap Text.written ++
        (Item.entriesAll d.items).flatMap Entry.written := by
  have hlifeline : ∀ actor : Actor ι, Placed.texts g (⟨⟨1, actorCol actor.rank⟩, .lifeline (l.lifeline actor)⟩ :
      Placed (Shape ι α)) = [] := fun _ => rfl
  have htitle : ∀ title, Placed.texts g (⟨⟨0, 0⟩, .title (l.title title)⟩ : Placed (Shape ι α)) =
      Text.written title := fun title => ((l.title title).texts_draw g (g.point 0 0)).trans (l.texts_text ..)
  rw [unframed, surroundings, shapes_items, List.flatMap_append, List.flatMap_append, List.flatMap_append,
    texts_entries, List.flatMap_assoc, List.flatMap_map, List.flatMap_map,
    List.flatMap_congr fun actor hactor => l.texts_boxes (hicons actor hactor) g,
    List.flatMap_congr fun actor _ => hlifeline actor, List.flatMap_congr fun title _ => htitle title]
  rw [List.flatMap_eq_nil_iff.mpr fun _ _ => rfl, List.append_nil]

end Layout

namespace Diagram

variable [Icon ι α]

/-- The texts of the picture of a diagram that was built, where icons write none: the label of each actor, once
for each of its boxes, the title, what is said in the order of the script, and at last the label and the condition of
each segment of each block, outer blocks before those inside of them. No configuration and no font changes them. -/
theorem texts_picture {b : Builder ι} {nodes : List Node} {d : Diagram ι} (h : b.build nodes = .ok d)
    (hicons : ∀ name icon, b.icons name = .ok icon → ∀ (corner : Point α) stroke fill,
      texts (Icon.draw icon corner stroke fill) = [])
    (config : Config α) (font : Font α) :
    texts (d.picture config font).calls =
      d.actors.flatMap Actor.written ++ d.title.toList.flatMap Text.written ++
        (Item.entriesAll d.items).flatMap Entry.written ++
        d.blocks.flatMap fun s => s.segments.flatMap fun segment => segment.heading.written := by
  have hactors : ∀ a ∈ d.actors, ∀ ref ∈ a.icon, ∀ (corner : Point α) stroke fill,
      texts (Icon.draw ref.icon corner stroke fill) = [] := fun a ha ref href =>
    hicons ref.name ref.icon (gives_icon_of_build h a ha ref href)
  rw [calls_picture (ranked_of_build h), Call.texts_cons, Call.texts_append, Call.texts_append, Call.texts_flatMap,
    Call.texts_flatMap, ← Layout.texts_unframed _ hactors]
  simp only [Layout.texts_frameAt]
  exact List.append_nil _

def textSample : List Node :=
  [.leaf 1 (.title "t"), .leaf 2 (.actor "a" [⟨"header", "none"⟩, ⟨"icon", "human"⟩] (some "one\ntwo")),
    .block 3 [⟨.alt "x", [.leaf 4 (.action (.named "a") (.named "b") .sync "m"),
      .block 5 [⟨.loop "", [.leaf 6 (.note [.named "a"] .over "n")]⟩]]⟩, ⟨.otherwise "y", []⟩],
    .leaf 9 (.gap .line none)]

theorem texts_picture_textSample :
    ∃ d : Diagram BuiltinIcon, ofNodes textSample = .ok d ∧
      texts (d.picture (.standard : Config Rat) .plain).calls =
        ["one", "two", "b", "b", "t", "m", "n", "alt", "[x]", "else", "[y]", "loop"] := by
  have hwritten : (ofNodes textSample).toOption.map (fun d =>
      d.actors.flatMap Actor.written ++ d.title.toList.flatMap Text.written ++
        (Item.entriesAll d.items).flatMap Entry.written ++
        d.blocks.flatMap fun s => s.segments.flatMap fun segment => segment.heading.written) =
        some ["one", "two", "b", "b", "t", "m", "n", "alt", "[x]", "else", "[y]", "loop"] := by
    decide +kernel
  obtain ⟨d, hbuild, hwritten⟩ := toOption_map_eq_some.mp hwritten
  refine ⟨d, hbuild, ?_⟩
  rw [← hwritten]
  refine texts_picture hbuild (fun name icon _ corner stroke fill => ?_) _ _
  cases icon <;> rfl

end Diagram

end SequenceChart
