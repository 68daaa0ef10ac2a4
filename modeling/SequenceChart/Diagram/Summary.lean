import SequenceChart.Diagram.Load

/-! Summaries of diagrams as JSON text: the title if there is one, the actors by rank, and how many items
there are. -/

namespace SequenceChart

namespace Summary

/-- A character inside a quoted string: a backslash stands before quotes and backslashes, and line feeds,
carriage returns and tabs have letters. -/
def quotedChar (c : Char) : List Char :=
  if c = '\\' then ['\\', '\\']
  else if c = '"' then ['\\', '"']
  else if c = '\n' then ['\\', 'n']
  else if c = '\r' then ['\\', 'r']
  else if c = '\t' then ['\\', 't']
  else [c]

def quoted (text : String) : List Char := '"' :: (text.toList.flatMap quotedChar ++ ['"'])

def number (n : Nat) : List Char := Nat.toDigits 10 n

def member (name : String) (value : List Char) : List Char := quoted name ++ ':' :: value

def object (members : List (List Char)) : List Char := '\x7b' :: ([','].intercalate members ++ ['\x7d'])

def array (elements : List (List Char)) : List Char := '[' :: ([','].intercalate elements ++ [']'])

variable {ι : Type}

def actor (a : Actor ι) : List Char :=
  object [member "name" (quoted a.name), member "label" (quoted a.label), member "rank" (number a.rank)]

def diagram (d : Diagram ι) : List Char :=
  object
    (d.title.toList.map (fun title => member "title" (quoted title)) ++
      [member "actors" (array (d.actors.map actor)), member "itemCount" (number d.itemCount)])

end Summary

def Script.summary (text : String) : Except LoadError String :=
  (Diagram.load text).map fun d => String.ofList (Summary.diagram d)

end SequenceChart
