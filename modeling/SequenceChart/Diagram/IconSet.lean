import SequenceChart.Text.Letters

/-! Icon sets: what an icon name stands for. A set may know a name, not know it, or fail on its own. -/

namespace SequenceChart

structure ResourceError where
  resource : String
  message : String
deriving DecidableEq, Repr

def ResourceError.text (e : ResourceError) : String := e.resource ++ ": " ++ e.message

inductive IconError where
  | notFound (name : String)
  | resource (failure : ResourceError)
deriving DecidableEq, Repr

def IconError.message : IconError → String
  | notFound name => "icon `" ++ name ++ "` not found"
  | resource failure => failure.text

def IconSet (ι : Type) : Type := String → Except IconError ι

/-- An icon with the name it was asked for by. The name alone tells two references apart. -/
structure IconRef (ι : Type) where
  name : String
  icon : ι

namespace IconRef

variable {ι : Type}

instance : BEq (IconRef ι) where
  beq a b := a.name == b.name

def quoted (c : Char) : List Char :=
  if c = '\n' then ['\\', 'n']
  else if c = '\r' then ['\\', 'r']
  else if c = '\t' then ['\\', 't']
  else if c = '"' ∨ c = '\\' then ['\\', c]
  else [c]

def debugText (r : IconRef ι) : String :=
  "IconRef(\"" ++ String.ofList (r.name.toList.flatMap quoted) ++ "\")"

end IconRef

inductive BuiltinIcon where
  | stickFigure
  | drum
deriving DecidableEq, Repr

namespace BuiltinIcon

def names : List String := ["human", "actor", "cylinder", "database"]

def set : IconSet BuiltinIcon := fun name =>
  let word := Text.foldCase name
  if word = "human" ∨ word = "actor" then .ok stickFigure
  else if word = "cylinder" ∨ word = "database" then .ok drum
  else .error (.notFound name)

end BuiltinIcon

end SequenceChart
