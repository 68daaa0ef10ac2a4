import SequenceChart.Text.Letters

/-! Keywords of the script. A word is a keyword in any case of its ASCII letters. -/

namespace SequenceChart

inductive Keyword where
  | title
  | participant
  | note
  | left
  | right
  | over
  | of
  | horizontal
  | spacer
  | gap
  | line
  | frame
  | alt
  | elseAlt
  | otherwise
  | loop
  | close
deriving DecidableEq, Repr

namespace Keyword

def text : Keyword → String
  | .title => "title"
  | .participant => "participant"
  | .note => "note"
  | .left => "left"
  | .right => "right"
  | .over => "over"
  | .of => "of"
  | .horizontal => "horizontal"
  | .spacer => "spacer"
  | .gap => "gap"
  | .line => "line"
  | .frame => "frame"
  | .alt => "alt"
  | .elseAlt => "elsealt"
  | .otherwise => "else"
  | .loop => "loop"
  | .close => "end"

def all : List Keyword :=
  [.title, .participant, .note, .left, .right, .over, .of, .horizontal, .spacer, .gap, .line, .frame, .alt,
    .elseAlt, .otherwise, .loop, .close]

def ofWord? (word : String) : Option Keyword :=
  all.find? fun k => k.text == Text.foldCase word

@[simp] theorem ofWord?_text (k : Keyword) : ofWord? k.text = some k := by
  cases k <;> rfl

theorem text_eq_of_ofWord? {word : String} {k : Keyword} (h : ofWord? word = some k) :
    k.text = Text.foldCase word := by
  rw [ofWord?] at h
  have hfound := List.find?_some h
  exact eq_of_beq hfound

end Keyword

end SequenceChart
