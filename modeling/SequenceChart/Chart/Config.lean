import SequenceChart.Chart.Style
import SequenceChart.Length
import SequenceChart.Number.Numeral
import SequenceChart.Vocabulary

/-! Configuration of a chart: its distances and its style, and the instructions that change them. -/

namespace SequenceChart

structure Config (α : Type) where
  margin : α
  fontSize : α
  titleFontSize : α
  actorPadding : α
  actorGap : α
  iconGap : α
  lifelineSpacer : α
  messagePadding : α
  labelGap : α
  arrowDescent : α
  selfLoopWidth : α
  selfLoopHeight : α
  notePadding : α
  noteOffset : α
  noteFold : α
  dividerPadding : α
  blockPadding : α
  /-- How far a nested frame lies inside the frame around it. -/
  blockInset : α
  blockTabPadding : α
  style : Style
deriving BEq, Repr

namespace Config

variable {α : Type} [Length α]

def standard : Config α where
  margin := 10.0
  fontSize := 12.0
  titleFontSize := 16.0
  actorPadding := 8.0
  actorGap := 24.0
  iconGap := 4.0
  lifelineSpacer := 20.0
  messagePadding := 12.0
  labelGap := 4.0
  arrowDescent := 8.0
  selfLoopWidth := 30.0
  selfLoopHeight := 16.0
  notePadding := 6.0
  noteOffset := 10.0
  noteFold := 8.0
  dividerPadding := 6.0
  blockPadding := 8.0
  blockInset := 10.0
  blockTabPadding := 4.0
  style := .standard

def length? (value : String) : Option α :=
  match Numeral.read? value.toList with
  | some (.decimal negative digits exponent) =>
    let x : α := Length.ofDecimal negative digits exponent
    if Length.isFinite x then some x else none
  | _ => none

/-- Applies one instruction. A value that does not fit leaves the configuration as it was, and so does
an instruction that names no setting. -/
def instruct (c : Config α) (setting : Instruction) : Config α :=
  let word := Text.foldCase setting.name
  if word = "style" then
    match Style.ofName? setting.value with
    | some style => { c with style }
    | none => c
  else if word = "font-size" then
    match length? setting.value with
    | some size => if (0.0 : α) < size then { c with fontSize := size } else c
    | none => c
  else if word = "margin" then
    match length? setting.value with
    | some margin => if (0.0 : α) ≤ margin then { c with margin } else c
    | none => c
  else c

def withInstructions (c : Config α) (settings : List Instruction) : Config α :=
  settings.foldl instruct c

end Config

end SequenceChart
