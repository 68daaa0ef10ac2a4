import SequenceChart.Chart.Layout
import SequenceChart.Diagram.Load
import SequenceChart.Svg.Sheet

/-! Rendering: the picture of a diagram, and SVG documents of diagrams and scripts, whatever columns characters
take. -/

namespace SequenceChart

namespace Diagram

variable {ι α : Type} [Length α]

def picture [Icon ι α] (d : Diagram ι) (config : Config α) (font : Font α) : Picture α :=
  (d.graphic config font).draw.2

def svg [ColumnWidths] [Icon ι Float] (d : Diagram ι) (config : Config Float) : String :=
  let picture := d.picture config (.estimated config.style.fontFamily)
  ((Sheet.blank (some config.style.background)).writeAll picture.calls).text

def ownConfig (d : Diagram ι) : Config α := Config.standard.withInstructions d.instructions

end Diagram

namespace Script

def render [ColumnWidths] (text : String) : Except LoadError String :=
  (Diagram.load text).map fun d => d.svg d.ownConfig

/-- The document of a script in a style given by name, whatever style its instructions ask for. A name
that no style has stands for the standard style. -/
def renderStyled [ColumnWidths] (text styleName : String) : Except LoadError String :=
  (Diagram.load text).map fun d =>
    d.svg { d.ownConfig with style := (Style.ofName? styleName).getD .standard }

def version : String := "0.1.0"

end Script

end SequenceChart
