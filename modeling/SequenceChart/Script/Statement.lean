import SequenceChart.Script.Fault
import SequenceChart.Script.Node

/-! Statements: what one line of a script says. Each reader takes the tokens at hand and returns what it
read with the tokens that are left. -/

namespace SequenceChart

inductive Statement where
  | leaf (content : Leaf)
  | opening (heading : Heading)
  /-- Starts the next segment of a block; after the last one no other may follow. -/
  | branch (heading : Heading) (last : Bool)
  | close
deriving DecidableEq, Repr

namespace Statement

def actorRef : List Token → Except ScriptFault (ActorRef × List Token)
  | .ident name :: rest => .ok (.named name, rest)
  | .dot :: .ident name :: rest => .ok (.pseudo name, rest)
  | .dot :: .keyword .left :: rest => .ok (.pseudo Keyword.left.text, rest)
  | .dot :: .keyword .right :: rest => .ok (.pseudo Keyword.right.text, rest)
  | .dot :: rest => .error (.expected .pseudoName rest.head?)
  | tokens => .error (.expected .actorName tokens.head?)

def stem : List Token → Except ScriptFault (Stem × List Token)
  | .dash :: rest => .ok (.solid, rest)
  | .doubleDash :: rest => .ok (.dashed, rest)
  | .equal :: rest => .ok (.thick, rest)
  | tokens => .error (.expected .stem tokens.head?)

def head : List Token → Except ScriptFault (Head × List Token)
  | .gt :: rest => .ok (.filled, rest)
  | .doubleGt :: rest => .ok (.lines, rest)
  | .slashGt :: rest => .ok (.barbed, rest)
  | .backslashGt :: rest => .ok (.lowerBarbed, rest)
  | tokens => .error (.expected .head tokens.head?)

def keyword (k : Keyword) : List Token → Except ScriptFault (List Token)
  | .keyword found :: rest =>
    if found = k then .ok rest else .error (.expected (.keyword k) (some (.keyword found)))
  | tokens => .error (.expected (.keyword k) tokens.head?)

def message? : List Token → Option String × List Token
  | .message text :: rest => (some text, rest)
  | tokens => (none, tokens)

def message (what : Expected) : List Token → Except ScriptFault (String × List Token)
  | .message text :: rest => .ok (text, rest)
  | tokens => .error (.expected what tokens.head?)

def attributes : List Token → Except ScriptFault (List Attribute × List Token)
  | .ident name :: .equal :: .ident value :: rest => do
    let (more, rest) ← attributes rest
    .ok (⟨name, value⟩ :: more, rest)
  | .ident name :: .equal :: rest => .error (.expected (.valueFor name) rest.head?)
  | .ident name :: rest => .error (.expected (.equalAfter name) rest.head?)
  | tokens => .ok ([], tokens)

def participant : List Token → Except ScriptFault (Leaf × List Token)
  | .ident name :: rest => do
    let (attrs, rest) ← attributes rest
    let (description, rest) := message? rest
    .ok (.actor name attrs description, rest)
  | tokens => .error (.expected .actorName tokens.head?)

def action (tokens : List Token) : Except ScriptFault (Leaf × List Token) := do
  let (sender, rest) ← actorRef tokens
  let (arrowStem, rest) ← stem rest
  let (arrowHead, rest) ← head rest
  let (receiver, rest) ← actorRef rest
  let (text, rest) := message? rest
  .ok (.action sender receiver ⟨arrowStem, arrowHead⟩ (text.getD ""), rest)

def secondActor : List Token → Except ScriptFault (List ActorRef × List Token)
  | .comma :: rest => do
    let (actor, rest) ← actorRef rest
    .ok ([actor], rest)
  | tokens => .ok ([], tokens)

def noteSide : List Token → Except ScriptFault ((Alignment × List ActorRef) × List Token)
  | .keyword .left :: rest => do
    let rest ← keyword .of rest
    let (actor, rest) ← actorRef rest
    .ok ((.left, [actor]), rest)
  | .keyword .right :: rest => do
    let rest ← keyword .of rest
    let (actor, rest) ← actorRef rest
    .ok ((.right, [actor]), rest)
  | .keyword .over :: rest => do
    let (actor, rest) ← actorRef rest
    let (others, rest) ← secondActor rest
    .ok ((.over, actor :: others), rest)
  | tokens => .error (.expected .noteSide tokens.head?)

def note (tokens : List Token) : Except ScriptFault (Leaf × List Token) := do
  let ((alignment, actors), rest) ← noteSide tokens
  let (text, rest) ← message .noteText rest
  .ok (.note actors alignment text, rest)

def dividerKind? : Token → Option DividerKind
  | .keyword .spacer => some .spacer
  | .keyword .gap => some .gap
  | .keyword .line => some .line
  | .keyword .frame => some .frame
  | _ => none

def divider (kind : DividerKind) (tokens : List Token) : Leaf × List Token :=
  let (text, rest) := message? tokens
  (.gap kind text, rest)

/-- What follows `horizontal`: a kind of divider, a line if there is none. -/
def horizontal : List Token → Leaf × List Token
  | [] => divider .line []
  | token :: rest =>
    match dividerKind? token with
    | some kind => divider kind rest
    | none => divider .line (token :: rest)

def heading (kind : SegmentKind) (label : String) (tokens : List Token) : Heading × List Token :=
  let (text, rest) := message? tokens
  (⟨kind, label, text.getD ""⟩, rest)

def start : List Token → Except ScriptFault (Statement × List Token)
  | [] => .error .empty
  | .keyword .title :: rest => do
    let (text, rest) ← message .title rest
    .ok (.leaf (.title text), rest)
  | .keyword .participant :: rest => do
    let (content, rest) ← participant rest
    .ok (.leaf content, rest)
  | .keyword .note :: rest => do
    let (content, rest) ← note rest
    .ok (.leaf content, rest)
  | .keyword .horizontal :: rest =>
    let (content, rest) := horizontal rest
    .ok (.leaf content, rest)
  | .keyword .alt :: rest =>
    let (head, rest) := heading .alt "alt" rest
    .ok (.opening head, rest)
  | .keyword .loop :: rest =>
    let (head, rest) := heading .loop "loop" rest
    .ok (.opening head, rest)
  | .keyword .elseAlt :: rest =>
    let (head, rest) := heading .otherwise "else alt" rest
    .ok (.branch head false, rest)
  | .keyword .otherwise :: rest =>
    let (head, rest) := heading .otherwise "else" rest
    .ok (.branch head true, rest)
  | .keyword .close :: rest => .ok (.close, rest)
  | .ident name :: rest => do
    let (content, rest) ← action (.ident name :: rest)
    .ok (.leaf content, rest)
  | .dot :: rest => do
    let (content, rest) ← action (.dot :: rest)
    .ok (.leaf content, rest)
  | token :: rest =>
    match dividerKind? token with
    | some kind =>
      let (content, rest) := divider kind rest
      .ok (.leaf content, rest)
    | none => .error (.badStart token)

def ofTokens (tokens : List Token) : Except ScriptFault Statement := do
  match ← start tokens with
  | (statement, []) => .ok statement
  | (_, token :: _) => .error (.trailing token)

def instruction (text : List Char) : Except ScriptFault Leaf :=
  let text := Text.trim text
  let name := text.takeWhile fun c => !Text.isBlank c
  let value := Text.trim (text.dropWhile fun c => !Text.isBlank c)
  if name = [] then .error .unnamedInstruction
  else .ok (.instruction ⟨String.ofList name, String.ofList value⟩)

def ofLine (line : List Char) : Except ScriptFault (Option Statement) :=
  match Text.trim line with
  | '#' :: '!' :: rest => (instruction rest).map fun content => some (.leaf content)
  | text =>
    match Token.tokenize text with
    | .error fault => .error (.lex fault)
    | .ok [] => .ok none
    | .ok (token :: tokens) => (ofTokens (token :: tokens)).map some

end Statement

end SequenceChart
