import SequenceChart.Script.Assembly
import SequenceChart.Text.Lines

/-! Scripts: one statement a line. -/

namespace SequenceChart.Script

def defaultFile : String := "<input>"

/-- The nodes of a script: its settings in source order, then every other node. -/
def parse (text : String) : Except ScriptError (List Node) :=
  parseLines (Text.lines text.toList)

end SequenceChart.Script
