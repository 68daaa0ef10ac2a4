/-! Elements of an XML document and their text. Values and contents are escaped where they are written,
and characters that no document may hold are left out. -/

namespace SequenceChart.Xml

/-- The written form of a character: an entity for the five that markup uses, nothing for what XML 1.0
does not allow. -/
def escapeChar (c : Char) : List Char :=
  if c = '&' then "&amp;".toList
  else if c = '<' then "&lt;".toList
  else if c = '>' then "&gt;".toList
  else if c = '"' then "&quot;".toList
  else if c = '\'' then "&apos;".toList
  else if c = '\t' ∨ c = '\n' ∨ c = '\r' then [c]
  else if c < ' ' ∨ c = '\ufffe' ∨ c = '\uffff' then []
  else [c]

def escape (text : List Char) : List Char := text.flatMap escapeChar

structure Attribute where
  name : String
  value : List Char
deriving DecidableEq, Repr

structure Element where
  name : String
  attributes : List Attribute
  /-- The text inside; an element without one is written as a single tag. -/
  content : Option (List Char)
deriving DecidableEq, Repr

def Attribute.write (a : Attribute) : List Char :=
  ' ' :: (a.name.toList ++ '=' :: '"' :: (escape a.value ++ ['"']))

def writeAttributes (attributes : List Attribute) : List Char := attributes.flatMap Attribute.write

def openTag (name : String) (attributes : List Attribute) : List Char :=
  '<' :: (name.toList ++ writeAttributes attributes ++ ['>', '\n'])

def closeTag (name : String) : List Char := '<' :: '/' :: (name.toList ++ ['>', '\n'])

def Element.write (e : Element) : List Char :=
  match e.content with
  | none => '<' :: (e.name.toList ++ writeAttributes e.attributes ++ ['/', '>', '\n'])
  | some text =>
    '<' :: (e.name.toList ++ writeAttributes e.attributes ++ '>' :: (escape text ++ closeTag e.name))

end SequenceChart.Xml
