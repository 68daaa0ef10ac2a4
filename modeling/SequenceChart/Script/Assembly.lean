import SequenceChart.Script.Statement

/-! Assembly of nodes: blocks are opened, branched and closed on a stack, so they nest to any depth. -/

namespace SequenceChart

structure OpenBlock where
  line : Nat
  earlier : List (Segment Node)
  current : Segment Node
  /-- Whether the current segment is the last that the block may have. -/
  last : Bool

namespace OpenBlock

def start (line : Nat) (heading : Heading) : OpenBlock := ⟨line, [], ⟨heading, []⟩, false⟩

def segments (b : OpenBlock) : List (Segment Node) := b.earlier ++ [b.current]

def kind (b : OpenBlock) : SegmentKind := (b.earlier.headD b.current).heading.kind

def push (b : OpenBlock) (node : Node) : OpenBlock :=
  { b with current := { b.current with body := b.current.body ++ [node] } }

/-- Starts the next segment. Only alternatives have several, and none follows the last. -/
def branch (b : OpenBlock) (heading : Heading) (last : Bool) : Except ScriptFault OpenBlock :=
  if b.kind ≠ .alt then .error (.branchInLoop heading.label)
  else if b.last then .error (.branchAfterLast heading.label)
  else .ok { b with earlier := b.segments, current := ⟨heading, []⟩, last }

def toNode (b : OpenBlock) : Node := .block b.line b.segments

end OpenBlock

/-- What has been read of a script: its settings, its finished nodes and its open blocks, innermost
first. -/
structure Assembly where
  settings : List Node
  nodes : List Node
  opened : List OpenBlock

namespace Assembly

def empty : Assembly := ⟨[], [], []⟩

def push (a : Assembly) (node : Node) : Assembly :=
  match a.opened with
  | [] => { a with nodes := a.nodes ++ [node] }
  | block :: outer => { a with opened := block.push node :: outer }

def step (a : Assembly) (line : Nat) : Statement → Except ScriptFault Assembly
  | .leaf (.instruction setting) =>
    .ok { a with settings := a.settings ++ [.leaf line (.instruction setting)] }
  | .leaf content => .ok (a.push (.leaf line content))
  | .opening heading => .ok { a with opened := .start line heading :: a.opened }
  | .branch heading last =>
    match a.opened with
    | [] => .error (.branchOutside heading.label)
    | block :: outer => (block.branch heading last).map fun b => { a with opened := b :: outer }
  | .close =>
    match a.opened with
    | [] => .error .closeOutside
    | block :: outer => .ok (push { a with opened := outer } block.toNode)

def readLine (a : Assembly) (line : Nat) (text : List Char) : Except ScriptError Assembly :=
  let read := do
    match ← Statement.ofLine text with
    | none => .ok a
    | some statement => a.step line statement
  read.mapError fun fault => ⟨line, fault⟩

/-- The nodes of a script that has been read to its end: settings first, then all others. An open block
is reported at the line that opened it. -/
def finish (a : Assembly) : Except ScriptError (List Node) :=
  match a.opened with
  | [] => .ok (a.settings ++ a.nodes)
  | block :: _ => .error ⟨block.line, .unterminated⟩

end Assembly

namespace Script

def readLines (a : Assembly) (line : Nat) : List (List Char) → Except ScriptError Assembly
  | [] => .ok a
  | text :: later => do
    let a ← a.readLine line text
    readLines a (line + 1) later

def parseLines (lines : List (List Char)) : Except ScriptError (List Node) := do
  let a ← readLines .empty 1 lines
  a.finish

end Script

end SequenceChart
