import SequenceChart.Diagram.Roster
import SequenceChart.Script.Node

/-! Diagrams from scripts. A walk through the nodes ranks the actors in the order in which they are first
named, resolves references and keeps what happens; the first fault ends it. -/

namespace SequenceChart

inductive BuildError where
  | pseudoActor (line : Nat) (name : String)
  | undeclared (line : Nat) (name : String)
  | iconNotFound (line : Nat) (actor icon : String)
  | unknownAttribute (line : Nat) (actor name : String)
  | attributeValue (line : Nat) (actor : String) (given : Attribute)
  | noteActors (line count : Nat)
  | resource (failure : ResourceError)
deriving DecidableEq, Repr

def BuildError.message : BuildError → String
  | pseudoActor line name =>
    "line " ++ toString line ++ ": invalid pseudo-actor `." ++ name ++ "` (expected `.left` or `.right`)"
  | undeclared line name =>
    "line " ++ toString line ++ ": actor `" ++ name ++ "` is referenced but never declared"
  | iconNotFound line actor icon =>
    "line " ++ toString line ++ ": icon `" ++ icon ++ "` for actor `" ++ actor ++ "` not found"
  | unknownAttribute line actor name =>
    "line " ++ toString line ++ ": unknown attribute `" ++ name ++ "` on actor `" ++ actor ++ "`"
  | attributeValue line actor given =>
    "line " ++ toString line ++ ": invalid value `" ++ given.value ++ "` for attribute `" ++ given.name ++
      "` on actor `" ++ actor ++ "`"
  | noteActors line count =>
    "line " ++ toString line ++ ": a note takes one or two actors, got " ++ toString count
  | resource failure => failure.text

/-- What a declaration sets; what it leaves out stays as it was. -/
structure Declaration (ι : Type) where
  icon : Option (IconRef ι)
  inHeader : Option Bool
  inFooter : Option Bool

structure Draft (ι : Type) extends Roster ι where
  title : Option String
  instructions : List Instruction

structure Builder (ι : Type) where
  icons : IconSet ι
  strict : Bool

namespace Declaration

variable {ι : Type}

def empty : Declaration ι := ⟨none, none, none⟩

def applyTo (d : Declaration ι) (description : Option String) (actor : Actor ι) : Actor ι :=
  { actor with
    label := description.getD actor.label
    icon := d.icon.or actor.icon
    inHeader := d.inHeader.getD actor.inHeader
    inFooter := d.inFooter.getD actor.inFooter }

theorem name_applyTo (d : Declaration ι) (description : Option String) (actor : Actor ι) :
    (d.applyTo description actor).name = actor.name := rfl

end Declaration

namespace Draft

variable {ι : Type}

def empty : Draft ι := ⟨.empty, none, []⟩

def mention (d : Draft ι) (name : String) : Draft ι × Nat :=
  match d.rank? name with
  | some rank => (d, rank)
  | none => ({ d with toRoster := d.enter name }, d.actors.length)

def modify (d : Draft ι) (rank : Nat) (f : Actor ι → Actor ι) (hf : ∀ a, (f a).name = a.name) : Draft ι :=
  { d with toRoster := d.toRoster.modify rank f hf }

end Draft

namespace Builder

variable {ι : Type}

def boxShown (line : Nat) (actor : String) (given : Attribute) : Except BuildError Bool :=
  let word := Text.foldCase given.value
  if word = "none" then .ok false
  else if word = "box" then .ok true
  else .error (.attributeValue line actor given)

def icon (b : Builder ι) (line : Nat) (actor name : String) : Except BuildError (IconRef ι) :=
  match b.icons name with
  | .ok icon => .ok ⟨name, icon⟩
  | .error (.notFound _) => .error (.iconNotFound line actor name)
  | .error (.resource failure) => .error (.resource failure)

def readAttribute (b : Builder ι) (line : Nat) (actor : String) (d : Declaration ι) (given : Attribute) :
    Except BuildError (Declaration ι) :=
  let word := Text.foldCase given.name
  if word = "icon" then
    (b.icon line actor given.value).map fun icon => { d with icon := some icon }
  else if word = "header" then
    (boxShown line actor given).map fun shown => { d with inHeader := some shown }
  else if word = "footer" then
    (boxShown line actor given).map fun shown => { d with inFooter := some shown }
  else .error (.unknownAttribute line actor given.name)

def readAttributes (b : Builder ι) (line : Nat) (actor : String) (d : Declaration ι) :
    List Attribute → Except BuildError (Declaration ι)
  | [] => .ok d
  | given :: later => do
    let d ← b.readAttribute line actor d given
    b.readAttributes line actor d later

def declare (b : Builder ι) (d : Draft ι) (line : Nat) (name : String) (given : List Attribute)
    (description : Option String) : Except BuildError (Draft ι) := do
  let (d, rank) := d.mention name
  let declaration ← b.readAttributes line name .empty given
  .ok (d.modify rank (declaration.applyTo description) (declaration.name_applyTo description))

def resolve (b : Builder ι) (d : Draft ι) (line : Nat) :
    ActorRef → Except BuildError (Draft ι × Participant)
  | .named name =>
    if b.strict ∧ (d.rank? name).isNone then .error (.undeclared line name)
    else
      let (d, rank) := d.mention name
      .ok (d, .actor rank)
  | .pseudo name =>
    let word := Text.foldCase name
    if word = "left" then .ok (d, .leftOffside)
    else if word = "right" then .ok (d, .rightOffside)
    else .error (.pseudoActor line name)

/-- A note over the same participant twice is a note over that one. -/
def note (b : Builder ι) (d : Draft ι) (line : Nat) (alignment : Alignment) (message : String) :
    List ActorRef → Except BuildError (Draft ι × Note)
  | [ref] => do
    let (d, first) ← b.resolve d line ref
    .ok (d, ⟨first, none, alignment, message⟩)
  | [ref, other] => do
    let (d, first) ← b.resolve d line ref
    let (d, second) ← b.resolve d line other
    .ok (d, ⟨first, if second = first then none else some second, alignment, message⟩)
  | refs => .error (.noteActors line refs.length)

def leaf (b : Builder ι) (d : Draft ι) (line : Nat) :
    Leaf → Except BuildError (Draft ι × Option Item)
  | .title text => .ok ({ d with title := some text }, none)
  | .actor name given description => do
    let d ← b.declare d line name given description
    .ok (d, none)
  | .action sender receiver arrow message => do
    let (d, sender) ← b.resolve d line sender
    let (d, receiver) ← b.resolve d line receiver
    .ok (d, some (.action ⟨sender, receiver, arrow, message⟩))
  | .note actors alignment message => do
    let (d, note) ← b.note d line alignment message actors
    .ok (d, some (.note note))
  | .gap kind message => .ok (d, some (.divider ⟨kind, message⟩))
  | .instruction setting => .ok ({ d with instructions := d.instructions ++ [setting] }, none)

mutual

def node (b : Builder ι) (d : Draft ι) : Node → Except BuildError (Draft ι × Option Item)
  | .leaf line content => b.leaf d line content
  | .block _ segments => do
    let (d, segments) ← b.segments d segments
    .ok (d, some (.block segments))

def segments (b : Builder ι) (d : Draft ι) :
    List (Segment Node) → Except BuildError (Draft ι × List (Segment Item))
  | [] => .ok (d, [])
  | ⟨heading, body⟩ :: later => do
    let (d, items) ← b.nodes d body
    let (d, built) ← b.segments d later
    .ok (d, ⟨heading, items⟩ :: built)

def nodes (b : Builder ι) (d : Draft ι) : List Node → Except BuildError (Draft ι × List Item)
  | [] => .ok (d, [])
  | first :: later => do
    let (d, item) ← b.node d first
    let (d, items) ← b.nodes d later
    .ok (d, item.toList ++ items)

end

def build (b : Builder ι) (nodes : List Node) : Except BuildError (Diagram ι) := do
  let (d, items) ← b.nodes .empty nodes
  .ok ⟨d.title, d.actors, items, d.instructions⟩

end Builder

end SequenceChart
