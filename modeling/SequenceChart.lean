import SequenceChart.Proofs.Chart.Reserve
import SequenceChart.Proofs.Chart.Segments
import SequenceChart.Proofs.Chart.Width
import SequenceChart.Proofs.Diagram.Summary
import SequenceChart.Proofs.Script.RoundTrip
import SequenceChart.Proofs.Svg.Document
import SequenceChart.Proofs.Svg.Escaping
import SequenceChart.Proofs.Number.Canonical
import SequenceChart.Proofs.Diagram.Faults
import SequenceChart.Proofs.Script.FirstFault
import SequenceChart.Proofs.Grid.History
import SequenceChart.Proofs.Grid.Axes
import SequenceChart.Proofs.Chart.Contents
import SequenceChart.Proofs.Chart.Order
import SequenceChart.Proofs.Chart.Texts
import SequenceChart.Proofs.Diagram.LineFaults
import SequenceChart.Proofs.Chart.Protocol
import SequenceChart.Proofs.Diagram.Acceptance
import SequenceChart.Proofs.Diagram.Items
import SequenceChart.Proofs.Chart.Styled
import SequenceChart.Proofs.Script.Trivia
import SequenceChart.Proofs.Script.Clauses
import SequenceChart.Proofs.Script.Segmentation
import SequenceChart.Proofs.Chart.Placement
import SequenceChart.Proofs.Script.Escapes
import SequenceChart.Proofs.Diagram.Declarations
import SequenceChart.Proofs.Chart.Closing
import SequenceChart.Proofs.Grid.Spreading
import SequenceChart.Proofs.Grid.Packing
import SequenceChart.Proofs.Chart.Lifelines
import SequenceChart.Chart.Render
