import SequenceChart.Script.Escape
import SequenceChart.Script.Token
import SequenceChart.Text.Alphanumeric
import SequenceChart.Text.Blank

/-! Tokens of a line, longest match first. Outside a message `#` starts a comment, and a colon turns the
rest of the line into a message. -/

namespace SequenceChart

inductive LexError where
  | unexpected (c : Char)
  | escape (fault : Escape.Error)
deriving DecidableEq, Repr

def LexError.message : LexError → String
  | unexpected c => "unexpected character `" ++ c.toString ++ "`"
  | escape fault => fault.message

namespace Token

def isNameChar (c : Char) : Bool := Text.isAlphanumeric c || c == '_'

def operator? : List Char → Option (Token × List Char)
  | '-' :: '-' :: rest => some (doubleDash, rest)
  | '-' :: rest => some (dash, rest)
  | '>' :: '>' :: rest => some (doubleGt, rest)
  | '>' :: rest => some (gt, rest)
  | '/' :: '>' :: rest => some (slashGt, rest)
  | '\\' :: '>' :: rest => some (backslashGt, rest)
  | '.' :: rest => some (dot, rest)
  | '=' :: rest => some (equal, rest)
  | ',' :: rest => some (comma, rest)
  | _ => none

def word? (text : List Char) : Option (Token × List Char) :=
  match text.takeWhile isNameChar with
  | [] => none
  | c :: run => some (ofWord (String.ofList (c :: run)), text.dropWhile isNameChar)

def next? (text : List Char) : Option (Token × List Char) :=
  match operator? text with
  | some found => some found
  | none => word? text

theorem length_lt_of_operator? {text rest : List Char} {t : Token} (h : operator? text = some (t, rest)) :
    rest.length < text.length := by
  revert h
  fun_cases operator? text <;> simp <;> intro _ h <;> subst h <;> omega

theorem length_lt_of_word? {text rest : List Char} {t : Token} (h : word? text = some (t, rest)) :
    rest.length < text.length := by
  revert h
  fun_cases word? text with
  | case1 => simp
  | case2 c run hrun =>
    intro h
    simp only [Option.some.injEq, Prod.mk.injEq] at h
    have hsplit := congrArg List.length (List.takeWhile_append_dropWhile (p := isNameChar) (l := text))
    rw [List.length_append, hrun, h.2] at hsplit
    simp only [List.length_cons] at hsplit
    omega

theorem length_lt_of_next? {text rest : List Char} {t : Token} (h : next? text = some (t, rest)) :
    rest.length < text.length := by
  revert h
  fun_cases next? text with
  | case1 found hfound => rintro ⟨⟩; exact length_lt_of_operator? hfound
  | case2 => exact length_lt_of_word?

def tokenize (text : List Char) : Except LexError (List Token) :=
  match hstart : Text.trimStart text with
  | [] => .ok []
  | '#' :: _ => .ok []
  | ':' :: rest =>
    match Escape.decode (Text.trim rest) with
    | .ok decoded => .ok [message (String.ofList decoded)]
    | .error fault => .error (.escape fault)
  | c :: rest =>
    match hnext : next? (c :: rest) with
    | some (token, later) =>
      have : later.length < text.length :=
        Nat.lt_of_lt_of_le (length_lt_of_next? hnext) (hstart ▸ Text.length_trimStart_le text)
      (tokenize later).map (token :: ·)
    | none => .error (.unexpected c)
termination_by text.length

end Token

end SequenceChart
