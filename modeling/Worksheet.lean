import Worksheet.Apply
import Worksheet.Binary
import Worksheet.Binary.Arithmetic
import Worksheet.Binary.Decimal
import Worksheet.Binary.Shortest
import Worksheet.Block
import Worksheet.Calculator
import Worksheet.Cell
import Worksheet.Cell.Label
import Worksheet.Dependencies
import Worksheet.Dependencies.Order
import Worksheet.Fault
import Worksheet.Fault.Display
import Worksheet.Fault.Reading
import Worksheet.Function
import Worksheet.Grid
import Worksheet.Grid.Placement
import Worksheet.Numeral
import Worksheet.Path
import Worksheet.Proofs.Application
import Worksheet.Proofs.Apply
import Worksheet.Proofs.Block
import Worksheet.Proofs.Canonical
import Worksheet.Proofs.Cells
import Worksheet.Proofs.Cycle
import Worksheet.Proofs.Downstream
import Worksheet.Proofs.Evaluation
import Worksheet.Proofs.Function
import Worksheet.Proofs.Index
import Worksheet.Proofs.Order
import Worksheet.Proofs.Outcome
import Worksheet.Proofs.Overwriting
import Worksheet.Proofs.Reach
import Worksheet.Proofs.Recalculation
import Worksheet.Proofs.References
import Worksheet.Proofs.Region
import Worksheet.Proofs.Resolution
import Worksheet.Proofs.Search
import Worksheet.Proofs.Stages
import Worksheet.Proofs.Upkeep
import Worksheet.Region
import Worksheet.Resolution
import Worksheet.Resolution.Evaluation
import Worksheet.Sheet
import Worksheet.Text.Arguments
import Worksheet.Text.Blank
import Worksheet.Text.Parentheses
import Worksheet.Text.Quoted
import Worksheet.Timestamp
import Worksheet.Timestamp.Expression
import Worksheet.Timestamp.Pattern
import Worksheet.Timestamp.Reading
import Worksheet.Value
import Worksheet.Value.Checked
import Worksheet.Value.Reader
import Worksheet.Value.References
import Worksheet.Value.Representation
import Worksheet.Word
import Worksheet.Proofs.FirstCycle
import Worksheet.Proofs.Freezing
import Worksheet.Proofs.Kinds
import Worksheet.Proofs.WellKinded
import Worksheet.Proofs.Label
import Worksheet.Proofs.Parentheses
import Worksheet.Proofs.Forms
import Worksheet.Proofs.Grammar
import Worksheet.Proofs.Footprint
import Worksheet.Proofs.Commuting
import Worksheet.Proofs.Calculation
import Worksheet.Proofs.Splitting
import Worksheet.Proofs.Writing
import Worksheet.Proofs.Redisplay
import Worksheet.Proofs.History
import Worksheet.Proofs.Circuit
import Worksheet.Dependencies.Descent
import Worksheet.Proofs.Descent
import Worksheet.Proofs.Sweep
import Worksheet.Proofs.Known
import Worksheet.Proofs.Reporting
import Worksheet.Proofs.Unreadable
import Worksheet.Proofs.Codec
import Worksheet.Resolution.Trace
import Worksheet.Proofs.Steps
import Worksheet.Proofs.Trace
import Worksheet.Proofs.Rounding
import Worksheet.Proofs.Differences
import Worksheet.Proofs.Storage
import Worksheet.Proofs.Pattern
import Worksheet.Proofs.Timestamp
import Worksheet.Proofs.Midpoint
import Worksheet.Proofs.Decimal
import Worksheet.Proofs.Walk
import Worksheet.Proofs.Nearest
import Worksheet.Proofs.Remainder
import Worksheet.Proofs.Conversion
