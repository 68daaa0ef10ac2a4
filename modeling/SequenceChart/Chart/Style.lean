import SequenceChart.Drawing.Color
import SequenceChart.Text.Letters

/-! Styles: the colours and the font of a chart, by name. -/

namespace SequenceChart

structure Style where
  name : String
  background : Color
  actorFill : Color
  actorStroke : Color
  actorText : Color
  lifeline : Color
  lifelineDashed : Bool
  message : Color
  messageText : Color
  noteFill : Color
  noteStroke : Color
  noteText : Color
  blockStroke : Color
  blockLabelFill : Color
  blockText : Color
  dividerStroke : Color
  dividerFill : Color
  fontFamily : String
deriving DecidableEq, Repr

namespace Style

def standard : Style where
  name := "default"
  background := .white
  actorFill := .white
  actorStroke := .rgb 0x33 0x33 0x33
  actorText := .black
  lifeline := .rgb 0x99 0x99 0x99
  lifelineDashed := true
  message := .rgb 0x33 0x33 0x33
  messageText := .black
  noteFill := .rgb 0xff 0xff 0xcc
  noteStroke := .rgb 0x33 0x33 0x33
  noteText := .black
  blockStroke := .rgb 0x66 0x66 0x66
  blockLabelFill := .white
  blockText := .black
  dividerStroke := .rgb 0x66 0x66 0x66
  dividerFill := .rgb 0xf0 0xf0 0xf0
  fontFamily := "sans-serif"

def modernBlue : Style where
  name := "modern-blue"
  background := .white
  actorFill := .rgb 0x4a 0x90 0xd9
  actorStroke := .rgb 0x2a 0x5a 0x8a
  actorText := .white
  lifeline := .rgb 0x4a 0x90 0xd9
  lifelineDashed := false
  message := .rgb 0x33 0x33 0x33
  messageText := .black
  noteFill := .rgb 0xe8 0xf4 0xfd
  noteStroke := .rgb 0x4a 0x90 0xd9
  noteText := .black
  blockStroke := .rgb 0x4a 0x90 0xd9
  blockLabelFill := .rgb 0xe8 0xf4 0xfd
  blockText := .black
  dividerStroke := .rgb 0x4a 0x90 0xd9
  dividerFill := .rgb 0xe8 0xf4 0xfd
  fontFamily := "sans-serif"

def rose : Style where
  name := "rose"
  background := .white
  actorFill := .rgb 0xc2 0x18 0x5b
  actorStroke := .rgb 0x88 0x0e 0x4f
  actorText := .white
  lifeline := .rgb 0xc2 0x18 0x5b
  lifelineDashed := false
  message := .rgb 0xc2 0x18 0x5b
  messageText := .black
  noteFill := .rgb 0xfc 0xe4 0xec
  noteStroke := .rgb 0xc2 0x18 0x5b
  noteText := .black
  blockStroke := .rgb 0xc2 0x18 0x5b
  blockLabelFill := .rgb 0xfc 0xe4 0xec
  blockText := .black
  dividerStroke := .rgb 0x88 0x0e 0x4f
  dividerFill := .rgb 0xfc 0xe4 0xec
  fontFamily := "sans-serif"

def warm : Style where
  name := "warm"
  background := .rgb 0xff 0xfb 0xf0
  actorFill := .rgb 0xff 0xcc 0x80
  actorStroke := .rgb 0xef 0x6c 0x00
  actorText := .black
  lifeline := .rgb 0xef 0x6c 0x00
  lifelineDashed := true
  message := .rgb 0xef 0x6c 0x00
  messageText := .black
  noteFill := .rgb 0xff 0xf3 0xe0
  noteStroke := .rgb 0xef 0x6c 0x00
  noteText := .black
  blockStroke := .rgb 0xef 0x6c 0x00
  blockLabelFill := .rgb 0xff 0xf3 0xe0
  blockText := .black
  dividerStroke := .rgb 0xef 0x6c 0x00
  dividerFill := .rgb 0xff 0xf3 0xe0
  fontFamily := "sans-serif"

def gray : Style where
  name := "gray"
  background := .rgb 0xfa 0xfa 0xfa
  actorFill := .rgb 0x75 0x75 0x75
  actorStroke := .rgb 0x42 0x42 0x42
  actorText := .white
  lifeline := .rgb 0x75 0x75 0x75
  lifelineDashed := false
  message := .rgb 0x42 0x42 0x42
  messageText := .rgb 0x21 0x21 0x21
  noteFill := .rgb 0xee 0xee 0xee
  noteStroke := .rgb 0x75 0x75 0x75
  noteText := .rgb 0x21 0x21 0x21
  blockStroke := .rgb 0x75 0x75 0x75
  blockLabelFill := .rgb 0xee 0xee 0xee
  blockText := .rgb 0x21 0x21 0x21
  dividerStroke := .rgb 0x42 0x42 0x42
  dividerFill := .rgb 0xee 0xee 0xee
  fontFamily := "sans-serif"

def plain : Style where
  name := "plain"
  background := .white
  actorFill := .white
  actorStroke := .black
  actorText := .black
  lifeline := .black
  lifelineDashed := false
  message := .black
  messageText := .black
  noteFill := .white
  noteStroke := .black
  noteText := .black
  blockStroke := .black
  blockLabelFill := .white
  blockText := .black
  dividerStroke := .black
  dividerFill := .white
  fontFamily := "serif"

def all : List Style := [standard, modernBlue, rose, warm, gray, plain]

def ofName? (name : String) : Option Style :=
  let word := Text.foldKelvin name
  if word = "default" then some standard
  else if word = "modern-blue" ∨ word = "modernblue" ∨ word = "blue" then some modernBlue
  else if word = "rose" ∨ word = "pink" then some rose
  else if word = "warm" ∨ word = "orange" then some warm
  else if word = "gray" ∨ word = "grey" then some gray
  else if word = "plain" ∨ word = "monochrome" then some plain
  else none

theorem ofName?_name : ∀ s ∈ all, ofName? s.name = some s := by decide

end Style

end SequenceChart
