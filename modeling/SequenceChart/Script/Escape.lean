/-! Escapes in messages: a line feed is written as a backslash and `n`, a backslash is written twice, and
a backslash has no other use. -/

namespace SequenceChart.Escape

inductive Error where
  | invalid (c : Char)
  | dangling
deriving DecidableEq, Repr

def Error.message : Error → String
  | invalid c => "invalid escape sequence `\\" ++ c.toString ++ "`"
  | dangling => "dangling `\\` at end of message"

def decode : List Char → Except Error (List Char)
  | [] => .ok []
  | '\\' :: 'n' :: rest => (decode rest).map ('\n' :: ·)
  | '\\' :: '\\' :: rest => (decode rest).map ('\\' :: ·)
  | '\\' :: c :: _ => .error (.invalid c)
  | ['\\'] => .error .dangling
  | c :: rest => (decode rest).map (c :: ·)

def encode : List Char → List Char
  | [] => []
  | c :: rest =>
    if c = '\\' then '\\' :: '\\' :: encode rest
    else if c = '\n' then '\\' :: 'n' :: encode rest
    else c :: encode rest

end SequenceChart.Escape
