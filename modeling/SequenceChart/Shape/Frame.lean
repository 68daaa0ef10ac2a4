import SequenceChart.Drawing.TextBlock
import SequenceChart.Grid.Basic

/-! Frames around blocks. A frame starts above the header of its first segment, is cut by a dashed line
above every further header and ends below the last row of the block. -/

namespace SequenceChart.Shape

structure FrameHeader (α : Type) where
  row : Nat
  tab : TextBlock α
  message : TextBlock α

structure Frame (α : Type) where
  segments : List (FrameHeader α)
  lastRow : Nat
  depth : Nat
  /-- This frame and the frames inside it that end on the same row. -/
  closing : Nat
  /-- For how many levels of frames this one makes room on both sides of the chart. -/
  marginLevels : Nat
  padding : α
  inset : α
  tabPadding : α
  stroke : Stroke α
  tabFill : Color
  labelFill : Color

namespace Frame

variable {α : Type} [Length α]

def tabSize (f : Frame α) (header : FrameHeader α) : Size α :=
  let tab := header.tab.size
  ⟨tab.width + 2.0 * f.tabPadding, max tab.height header.message.size.height + 2.0 * f.tabPadding⟩

def edges (f : Frame α) (g : Grid α) : α × α :=
  let shift := (f.depth : α) * f.inset
  ((g.point 0 0).x + shift, (g.point 0 g.cols).x - shift)

def tops (f : Frame α) (y : Nat → α) : List α :=
  f.segments.map fun header => y header.row - (f.tabSize header).height

/-- The lower edge: every frame that closes on the last row keeps its distance from those inside it. -/
def bottom (f : Frame α) (y : Nat → α) : α :=
  y f.lastRow + (f.closing : α) * f.padding - f.padding / 2.0

def segmentBounds (f : Frame α) (y : Nat → α) : List (α × α) :=
  (f.tops y).zip ((f.tops y).drop 1 ++ [f.bottom y])

def marginConstraints (f : Frame α) (pos : GridPos) (cols : Nat) : List (Constraint α) :=
  if f.marginLevels = 0 then []
  else
    let margin := (f.marginLevels : α) * f.inset
    [.add pos (.horizontal 0.0 margin), .add ⟨pos.row, cols⟩ (.horizontal margin 0.0)]

def headerConstraints (f : Frame α) (cols : Nat) (header : FrameHeader α) : List (Constraint α) :=
  let tab := f.tabSize header
  let width :=
    2.0 * (f.depth : α) * f.inset + tab.width + header.message.size.width + 4.0 * f.tabPadding
  [.floor ⟨header.row, 0⟩ (.vertical tab.height 0.0), .add ⟨header.row, 0⟩ (.vertical f.padding 0.0),
    .span ⟨header.row, 0⟩ ⟨header.row, cols⟩ ⟨width, 0.0⟩]

def constraints (f : Frame α) (pos : GridPos) (cols : Nat) : List (Constraint α) :=
  f.marginConstraints pos cols ++ f.segments.flatMap (f.headerConstraints cols) ++
    [.add ⟨f.lastRow, 0⟩ (.vertical 0.0 f.padding)]

def drawHeader (f : Frame α) (left top : α) (header : FrameHeader α) : List (Call α) :=
  let tab := f.tabSize header
  .rect ⟨left, top⟩ tab (some f.stroke) (some f.tabFill) ::
    (header.tab.draw ⟨left + f.tabPadding, top + f.tabPadding⟩ .left ++
      header.message.drawLabel ⟨left + tab.width + f.tabPadding, top + f.tabPadding⟩ f.labelFill .left)

def drawCut (f : Frame α) (left right top : α) : Call α :=
  .line ⟨left, top⟩ ⟨right, top⟩ f.stroke.dashed

def draw (f : Frame α) (g : Grid α) : List (Call α) :=
  let (left, right) := f.edges g
  let y := fun row => (g.point row 0).y
  match f.segments.zip (f.tops y) with
  | [] => []
  | (header, top) :: later =>
    .rect ⟨left, top⟩ ⟨right - left, f.bottom y - top⟩ (some f.stroke) none ::
      (f.drawHeader left top header ++
        later.flatMap fun (header, top) =>
          f.drawCut left right top :: f.drawHeader left top header)

end Frame

end SequenceChart.Shape
