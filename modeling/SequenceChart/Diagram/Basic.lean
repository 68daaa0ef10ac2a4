import SequenceChart.Diagram.IconSet
import SequenceChart.Vocabulary

/-! Diagrams: actors in the order of their ranks, and what happens between them in the order of time.
`ι` is the type of the icons that actors may carry. -/

namespace SequenceChart

/-- An end of an action or the anchor of a note: an actor by rank, or a margin of the diagram. -/
inductive Participant where
  | actor (rank : Nat)
  | leftOffside
  | rightOffside
deriving DecidableEq, Repr

structure Actor (ι : Type) where
  name : String
  label : String
  rank : Nat
  icon : Option (IconRef ι)
  inHeader : Bool
  inFooter : Bool

def Actor.mentioned {ι : Type} (name : String) (rank : Nat) : Actor ι :=
  ⟨name, name, rank, none, true, true⟩

structure Action where
  sender : Participant
  receiver : Participant
  arrow : Arrow
  message : String
deriving DecidableEq, Repr

def Action.isSelf (a : Action) : Bool := a.sender = a.receiver

structure Note where
  first : Participant
  /-- The other participant of a note over two. -/
  second : Option Participant
  alignment : Alignment
  message : String
deriving DecidableEq, Repr

structure Divider where
  kind : DividerKind
  message : Option String
deriving DecidableEq, Repr

inductive Item where
  | action (a : Action)
  | note (n : Note)
  | divider (d : Divider)
  | block (segments : List (Segment Item))

mutual

def Item.count : Item → Nat
  | .block segments => 1 + Item.countSegments segments
  | _ => 1

def Item.countSegments : List (Segment Item) → Nat
  | [] => 0
  | ⟨_, body⟩ :: later => Item.countAll body + Item.countSegments later

def Item.countAll : List Item → Nat
  | [] => 0
  | item :: later => item.count + Item.countAll later

end

structure Diagram (ι : Type) where
  title : Option String
  actors : List (Actor ι)
  items : List Item
  instructions : List Instruction

namespace Diagram

variable {ι : Type}

def actor? (d : Diagram ι) (rank : Nat) : Option (Actor ι) := d.actors[rank]?

def actorNamed? (d : Diagram ι) (name : String) : Option (Actor ι) := d.actors.find? (·.name == name)

def itemCount (d : Diagram ι) : Nat := Item.countAll d.items

end Diagram

end SequenceChart
