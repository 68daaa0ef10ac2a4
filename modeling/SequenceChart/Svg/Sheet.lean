import SequenceChart.Drawing.Call
import SequenceChart.Number.Decimal
import SequenceChart.Svg.Xml

/-! Sheets: SVG documents that grow by one element for every mark that is drawn on them. Numbers have at
most two decimals. -/

namespace SequenceChart

structure Sheet where
  text : String
  size : Size Float
  background : Option Color
  closed : Bool

namespace Sheet

def num (x : Float) : List Char := Decimal.ofFloat 2 x

/-- How far the baseline of a row of text lies below its upper edge, in font sizes. -/
def baseline : Float := 0.8

def strokeAttributes : Option (Stroke Float) → List Xml.Attribute
  | none => [⟨"stroke", "none".toList⟩]
  | some stroke =>
    [⟨"stroke", stroke.color.hex⟩, ⟨"stroke-width", num stroke.width⟩] ++
      (if stroke.color.isOpaque then [] else [⟨"stroke-opacity", num stroke.color.opacity⟩]) ++
      (if stroke.isDashed then [⟨"stroke-dasharray", [','].intercalate (stroke.dash.map num)⟩] else [])

def fillAttributes : Option Color → List Xml.Attribute
  | none => [⟨"fill", "none".toList⟩]
  | some fill =>
    ⟨"fill", fill.hex⟩ :: if fill.isOpaque then [] else [⟨"fill-opacity", num fill.opacity⟩]

def paintAttributes (stroke : Option (Stroke Float)) (fill : Option Color) : List Xml.Attribute :=
  strokeAttributes stroke ++ fillAttributes fill

def pointList (points : List (Point Float)) : List Char :=
  [' '].intercalate (points.map fun p => num p.x ++ ',' :: num p.y)

def pair (p : Point Float) : List Char := num p.x ++ ' ' :: num p.y

def pathStep : PathStep Float → List Char
  | .move target => 'M' :: ' ' :: pair target
  | .line target => 'L' :: ' ' :: pair target
  | .quadratic control target => 'Q' :: ' ' :: (pair control ++ ' ' :: pair target)
  | .close => ['Z']

def rectElement (corner : Point Float) (size : Size Float) (paint : List Xml.Attribute) : Xml.Element :=
  ⟨"rect",
    [⟨"x", num corner.x⟩, ⟨"y", num corner.y⟩, ⟨"width", num size.width⟩, ⟨"height", num size.height⟩] ++
      paint,
    none⟩

def element? : Call Float → Option Xml.Element
  | .line start stop stroke => some
    ⟨"line",
      [⟨"x1", num start.x⟩, ⟨"y1", num start.y⟩, ⟨"x2", num stop.x⟩, ⟨"y2", num stop.y⟩] ++
        strokeAttributes (some stroke),
      none⟩
  | .rect corner size stroke fill => some (rectElement corner size (paintAttributes stroke fill))
  | .circle center radius stroke fill => some
    ⟨"circle",
      [⟨"cx", num center.x⟩, ⟨"cy", num center.y⟩, ⟨"r", num radius⟩] ++ paintAttributes stroke fill,
      none⟩
  | .text corner content style => some
    ⟨"text",
      [⟨"x", num corner.x⟩, ⟨"y", num (corner.y + style.size * baseline)⟩,
        ⟨"font-family", style.font.toList⟩, ⟨"font-size", num style.size⟩, ⟨"fill", style.color.hex⟩] ++
        (if style.bold then [⟨"font-weight", "bold".toList⟩] else []),
      some content.toList⟩
  | .polygon points stroke fill => some
    ⟨"polygon", ⟨"points", pointList points⟩ :: paintAttributes stroke fill, none⟩
  | .polyline points stroke => some
    ⟨"polyline", ⟨"points", pointList points⟩ :: paintAttributes (some stroke) none, none⟩
  | .path steps stroke fill => some
    ⟨"path", ⟨"d", [' '].intercalate (steps.map pathStep)⟩ :: paintAttributes stroke fill, none⟩
  | .setSize _ => none
  | .close => none

def rootTag (size : Size Float) : List Char :=
  Xml.openTag "svg"
    [⟨"xmlns", "http://www.w3.org/2000/svg".toList⟩,
      ⟨"viewBox", "0 0 ".toList ++ num size.width ++ ' ' :: num size.height⟩,
      ⟨"width", num size.width⟩, ⟨"height", num size.height⟩]

def backgroundElement (size : Size Float) (color : Color) : Xml.Element :=
  rectElement ⟨0.0, 0.0⟩ size [⟨"fill", color.hex⟩]

/-- The text that a call adds to a document. Only the first close ends it. -/
def added (s : Sheet) : Call Float → List Char
  | .setSize size =>
    rootTag size ++ (s.background.elim [] fun color => (backgroundElement size color).write)
  | .close => if s.closed then [] else Xml.closeTag "svg"
  | mark => (element? mark).elim [] Xml.Element.write

def blank (background : Option Color) : Sheet := ⟨"", ⟨0.0, 0.0⟩, background, false⟩

def write (s : Sheet) (call : Call Float) : Sheet where
  text := s.text ++ String.ofList (s.added call)
  size := match call with
    | .setSize size => size
    | _ => s.size
  background := s.background
  closed := match call with
    | .close => true
    | _ => s.closed

def writeAll (s : Sheet) (calls : List (Call Float)) : Sheet := calls.foldl write s

@[simp] theorem writeAll_nil (s : Sheet) : s.writeAll [] = s := rfl

@[simp] theorem writeAll_cons (s : Sheet) (call : Call Float) (calls : List (Call Float)) :
    s.writeAll (call :: calls) = (s.write call).writeAll calls := rfl

theorem writeAll_append (s : Sheet) (calls later : List (Call Float)) :
    s.writeAll (calls ++ later) = (s.writeAll calls).writeAll later :=
  List.foldl_append

end Sheet

end SequenceChart
