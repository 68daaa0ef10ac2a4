import SequenceChart.Chart.Document
import SequenceChart.Text.Columns

/-! Rendering with the table of columns. -/

namespace SequenceChart

instance : ColumnWidths := ⟨Text.columns⟩

end SequenceChart
