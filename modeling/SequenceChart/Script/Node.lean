import SequenceChart.Vocabulary

/-! Nodes of a script: its statements with the lines they start on, blocks as trees. -/

namespace SequenceChart

structure Attribute where
  name : String
  value : String
deriving DecidableEq, Repr

/-- A reference to a participant: an actor by name, or a margin of the diagram by its dotted name. -/
inductive ActorRef where
  | named (name : String)
  | pseudo (name : String)
deriving DecidableEq, Repr

inductive Leaf where
  | title (text : String)
  | actor (ident : String) (attributes : List Attribute) (description : Option String)
  | action (sender receiver : ActorRef) (arrow : Arrow) (message : String)
  | note (actors : List ActorRef) (alignment : Alignment) (message : String)
  | gap (kind : DividerKind) (message : Option String)
  | instruction (setting : Instruction)
deriving DecidableEq, Repr

inductive Node where
  | leaf (line : Nat) (content : Leaf)
  /-- A block carries the line of its opening statement. -/
  | block (line : Nat) (segments : List (Segment Node))

def Node.line : Node → Nat
  | leaf line _ => line
  | block line _ => line

end SequenceChart
