import SequenceChart.Diagram.Build
import SequenceChart.Script.Parser

/-! Loading: from the text of a script to its diagram, with the icons that are always at hand. -/

namespace SequenceChart

inductive LoadError where
  | script (e : ScriptError)
  | build (e : BuildError)
deriving DecidableEq, Repr

def LoadError.message : LoadError → String
  | script e => e.message Script.defaultFile
  | build e => e.message

namespace Diagram

def ofNodes (nodes : List Node) : Except BuildError (Diagram BuiltinIcon) :=
  Builder.build ⟨BuiltinIcon.set, false⟩ nodes

def load (text : String) : Except LoadError (Diagram BuiltinIcon) :=
  match Script.parse text with
  | .error e => .error (.script e)
  | .ok nodes => (ofNodes nodes).mapError .build

end Diagram

end SequenceChart
