import SequenceChart.Chart.Config
import SequenceChart.Chart.Rows
import SequenceChart.Shape.Basic

/-! Layout: which shape stands where on the grid of a chart. Boxes and lifelines come first, then the
title, then everything that happens, and frames last, outer ones before those inside them. -/

namespace SequenceChart

structure Layout (α : Type) where
  config : Config α
  font : Font α
  rows : Nat
  cols : Nat

/-- What items have been laid out as: their shapes, the frames of the blocks among them, and the first row that
is free. -/
structure LayoutRun (ι α : Type) where
  next : Nat
  shapes : List (Placed (Shape ι α))
  frames : List (Placed (Shape.Frame α))

structure SegmentRun (ι α : Type) extends LayoutRun ι α where
  headers : List (Shape.FrameHeader α)

namespace LayoutRun

variable {ι α : Type}

def start (row : Nat) : LayoutRun ι α := ⟨row, [], []⟩

def skipRow (run : LayoutRun ι α) : LayoutRun ι α := { run with next := run.next + 1 }

def put (run : LayoutRun ι α) (col : Nat) (shape : Shape ι α) : LayoutRun ι α :=
  { run with next := run.next + 1, shapes := run.shapes ++ [⟨⟨run.next, col⟩, shape⟩] }

end LayoutRun

def bracketed (message : String) : String := if message.isEmpty then "" else "[" ++ message ++ "]"

namespace Layout

variable {ι α : Type} [Length α] [Icon ι α]

def text (l : Layout α) (text : String) (size : α) (color : Color) (bold : Bool) : TextBlock α :=
  .measure l.font text ⟨l.font.family, size, color, bold⟩

def col (l : Layout α) : Participant → Nat
  | .actor rank => actorCol rank
  | .leftOffside => 0
  | .rightOffside => l.cols

def title (l : Layout α) (title : String) : Shape.Title α where
  text := l.text title l.config.titleFontSize l.config.style.actorText true
  gap := l.config.actorPadding

def actorBox (l : Layout α) (actor : Actor ι) (footer : Bool) : Shape.ActorBox ι α where
  label := l.text actor.label l.config.fontSize l.config.style.actorText false
  icon := actor.icon
  footer := footer
  padding := l.config.actorPadding
  iconGap := l.config.iconGap
  gap := l.config.actorGap
  stroke := .solid l.config.style.actorStroke 1.5
  fill := l.config.style.actorFill
  iconFill := l.config.style.background

def lifeline (l : Layout α) (actor : Actor ι) : Shape.Lifeline α where
  col := actorCol actor.rank
  footerRow := l.rows
  spacer := l.config.lifelineSpacer
  stroke :=
    ⟨l.config.style.lifeline, 1.0, if l.config.style.lifelineDashed then [4.0, 4.0] else []⟩

def message (l : Layout α) (a : Action) : Shape.Message α where
  fromCol := l.col a.sender
  toCol := l.col a.receiver
  arrow := a.arrow
  label := l.text a.message l.config.fontSize l.config.style.messageText false
  labelFill := l.config.style.background
  stroke := .solid l.config.style.message 1.0
  padding := l.config.messagePadding
  labelGap := l.config.labelGap
  descent := l.config.arrowDescent
  loop := ⟨l.config.selfLoopWidth, l.config.selfLoopHeight⟩

def note (l : Layout α) (n : Note) : Shape.NoteBox α where
  alignment := n.alignment
  otherCol := (n.second.map l.col).filter (· ≠ l.col n.first)
  text := l.text n.message l.config.fontSize l.config.style.noteText false
  padding := l.config.notePadding
  offset := l.config.noteOffset
  fold := l.config.noteFold
  descent := l.config.arrowDescent
  stroke := .solid l.config.style.noteStroke 1.0
  fill := l.config.style.noteFill

def separator (l : Layout α) (d : Divider) : Shape.Separator α where
  kind := d.kind
  text := l.text (d.message.getD "") l.config.fontSize l.config.style.messageText false
  minHeight := l.config.fontSize
  padding := l.config.dividerPadding
  stroke := .solid l.config.style.dividerStroke 1.0
  fill := l.config.style.dividerFill
  labelFill := l.config.style.background

def frameHeader (l : Layout α) (row : Nat) (h : Heading) : Shape.FrameHeader α where
  row := row
  tab := l.text h.label l.config.fontSize l.config.style.blockText true
  message := l.text (bracketed h.message) l.config.fontSize l.config.style.blockText false

/-- The frame of a block; which one makes room at the margins is settled when all are known. -/
def frame (l : Layout α) (headers : List (Shape.FrameHeader α)) (lastRow depth closing : Nat) :
    Shape.Frame α where
  segments := headers
  lastRow := lastRow
  depth := depth
  closing := closing
  marginLevels := 0
  padding := l.config.blockPadding
  inset := l.config.blockInset
  tabPadding := l.config.blockTabPadding
  stroke := .solid l.config.style.blockStroke 1.0
  tabFill := l.config.style.blockLabelFill
  labelFill := l.config.style.background

mutual

def addItem (l : Layout α) (depth : Nat) (run : LayoutRun ι α) : Item → LayoutRun ι α
  | .action a => run.put (l.col a.sender) (.message (l.message a))
  | .note n => run.put (l.col n.first) (.note (l.note n))
  | .divider d => run.put 0 (.separator (l.separator d))
  | .block segments =>
    -- The frame is known only after those of the blocks inside, and goes to where the first of them went.
    let slot := run.frames.length
    let after := l.addSegments depth ⟨run, []⟩ segments
    let frame := l.frame after.headers (after.next - 1) depth (1 + Item.closingSegments segments)
    { after.toLayoutRun with frames := after.frames.insertIdx slot ⟨⟨run.next, 0⟩, frame⟩ }

def addSegments (l : Layout α) (depth : Nat) (run : SegmentRun ι α) : List (Segment Item) → SegmentRun ι α
  | [] => run
  | ⟨heading, body⟩ :: later =>
    let inner := l.addItems (depth + 1) run.skipRow body
    l.addSegments depth ⟨inner, run.headers ++ [l.frameHeader run.next heading]⟩ later

def addItems (l : Layout α) (depth : Nat) (run : LayoutRun ι α) : List Item → LayoutRun ι α
  | [] => run
  | first :: later => l.addItems depth (l.addItem depth run first) later

end

def item (l : Layout α) (row depth : Nat) (item : Item) : LayoutRun ι α := l.addItem depth (.start row) item

def segments (l : Layout α) (row depth : Nat) (segments : List (Segment Item)) : SegmentRun ι α :=
  l.addSegments depth ⟨.start row, []⟩ segments

def items (l : Layout α) (row depth : Nat) (items : List Item) : LayoutRun ι α := l.addItems depth (.start row) items

def boxes (l : Layout α) (actor : Actor ι) : List (Placed (Shape ι α)) :=
  (if actor.inHeader then [⟨⟨1, actorCol actor.rank⟩, .actorBox (l.actorBox actor false)⟩] else []) ++
    (if actor.inFooter then [⟨⟨l.rows, actorCol actor.rank⟩, .actorBox (l.actorBox actor true)⟩] else [])

/-- Lets the first frame make room at the margins for as many levels as there are. -/
def reserveMargins : List (Placed (Shape.Frame α)) → List (Placed (Shape.Frame α))
  | [] => []
  | first :: later =>
    let levels := later.foldl (fun levels f => max levels (f.item.depth + 1)) (first.item.depth + 1)
    { first with item := { first.item with marginLevels := levels } } :: later

def placements (l : Layout α) (d : Diagram ι) : List (Placed (Shape ι α)) :=
  let run : LayoutRun ι α := l.items 2 0 d.items
  d.actors.flatMap l.boxes ++
    d.actors.map (fun actor => ⟨⟨1, actorCol actor.rank⟩, .lifeline (l.lifeline actor)⟩) ++
    (d.title.toList.map fun title => ⟨⟨0, 0⟩, .title (l.title title)⟩) ++
    run.shapes ++
    (reserveMargins run.frames).map fun placed => ⟨placed.pos, .frame placed.item⟩

end Layout

namespace Diagram

variable {ι α : Type} [Length α] [Icon ι α]

def graphic (d : Diagram ι) (config : Config α) (font : Font α) : Graphic (Shape ι α) α :=
  let l : Layout α := ⟨config, font, d.lastRow, d.lastCol⟩
  (l.placements d).foldl (fun g placed => (g.put placed.pos placed.item).2)
    (.empty d.lastRow d.lastCol config.margin)

end Diagram

end SequenceChart
