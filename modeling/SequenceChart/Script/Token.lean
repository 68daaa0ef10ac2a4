import SequenceChart.Script.Keyword

/-! Tokens of one line of the script, and how messages name them. -/

namespace SequenceChart

inductive Token where
  | keyword (k : Keyword)
  | dash
  | doubleDash
  | dot
  | equal
  | comma
  | gt
  | doubleGt
  | slashGt
  | backslashGt
  | message (text : String)
  | ident (name : String)
deriving DecidableEq, Repr

namespace Token

def ofWord (word : String) : Token :=
  match Keyword.ofWord? word with
  | some k => keyword k
  | none => ident word

/-- Tokens are quoted; a message is only called a message. -/
def display : Token → String
  | keyword k => "`" ++ k.text ++ "`"
  | dash => "`-`"
  | doubleDash => "`--`"
  | dot => "`.`"
  | equal => "`=`"
  | comma => "`,`"
  | gt => "`>`"
  | doubleGt => "`>>`"
  | slashGt => "`/>`"
  | backslashGt => "`\\>`"
  | message _ => "message"
  | ident name => "`" ++ name ++ "`"

end Token

end SequenceChart
