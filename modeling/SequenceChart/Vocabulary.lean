/-! Words that a script and the diagram built from it share: arrows, alignments, dividers and the segments
of a block. -/

namespace SequenceChart

inductive Stem where
  | solid
  | dashed
  | thick
deriving DecidableEq, Repr

inductive Head where
  | filled
  | lines
  | barbed
  | lowerBarbed
deriving DecidableEq, Repr

structure Arrow where
  stem : Stem
  head : Head
deriving DecidableEq, Repr

namespace Arrow

/-- The arrow of a call, written `->`. -/
def sync : Arrow := ⟨.solid, .filled⟩

/-- The arrow of an answer, written `-->>`. -/
def response : Arrow := ⟨.dashed, .lines⟩

end Arrow

inductive Alignment where
  | left
  | right
  | over
deriving DecidableEq, Repr

inductive DividerKind where
  | spacer
  | gap
  | frame
  | line
deriving DecidableEq, Repr

inductive SegmentKind where
  | alt
  | otherwise
  | loop
deriving DecidableEq, Repr

structure Heading where
  kind : SegmentKind
  label : String
  message : String
deriving DecidableEq, Repr

structure Segment (ν : Type) where
  heading : Heading
  body : List ν

structure Instruction where
  name : String
  value : String
deriving DecidableEq, Repr

end SequenceChart
