import SequenceChart.Script.Lexer

/-! Faults of a script: what is wrong with a line or with the blocks, and how it is reported. -/

namespace SequenceChart

inductive Expected where
  | keyword (k : Keyword)
  | actorName
  | pseudoName
  | equalAfter (name : String)
  | valueFor (name : String)
  | stem
  | head
  | noteSide
  | dividerKind
  | title
  | noteText
deriving DecidableEq, Repr

def Expected.text : Expected → String
  | keyword k => "`" ++ k.text ++ "`"
  | actorName => "actor name"
  | pseudoName => "pseudo-actor name after `.`"
  | equalAfter name => "`=` after attribute `" ++ name ++ "`"
  | valueFor name => "value for attribute `" ++ name ++ "`"
  | stem => "arrow (`-`, `--` or `=`)"
  | head => "arrowhead (`>`, `>>`, `/>` or `\\>`)"
  | noteSide => "`left of`, `right of` or `over`"
  | dividerKind => "divider kind"
  | title => "`:` followed by the title"
  | noteText => "`:` followed by the note text"

inductive ScriptFault where
  | lex (fault : LexError)
  | unnamedInstruction
  | expected (what : Expected) (found : Option Token)
  | badStart (token : Token)
  | trailing (token : Token)
  | empty
  | branchOutside (label : String)
  | branchInLoop (label : String)
  | branchAfterLast (label : String)
  | closeOutside
  | unterminated
deriving DecidableEq, Repr

def ScriptFault.message : ScriptFault → String
  | lex fault => fault.message
  | unnamedInstruction => "processing instruction is missing a name"
  | expected what (some token) => "expected " ++ what.text ++ ", found " ++ token.display
  | expected what none => "expected " ++ what.text ++ ", found end of line"
  | badStart token => "unexpected " ++ token.display ++ " at start of statement"
  | trailing token => "unexpected " ++ token.display ++ " after end of statement"
  | empty => "empty statement"
  | branchOutside label => "`" ++ label ++ "` outside of an `alt` block"
  | branchInLoop label => "`" ++ label ++ "` is only valid inside an `alt` block"
  | branchAfterLast label => "`" ++ label ++ "` cannot follow the final `else` of a block"
  | closeOutside => "`end` without a block"
  | unterminated => "unterminated block: missing `end`"

structure ScriptError where
  line : Nat
  fault : ScriptFault
deriving DecidableEq, Repr

def ScriptError.message (file : String) (e : ScriptError) : String :=
  file ++ ":" ++ toString e.line ++ ": syntax error: " ++ e.fault.message

end SequenceChart
