import Superpose.Fault.Report
import Superpose.Settings.Load
import Superpose.Workbench.Bench
import Superpose.Workbench.Calendar
import Superpose.Workbench.Json.Format
import Superpose.Workbench.Writing
import Superpose.Proofs.Checked
import Superpose.Proofs.Run.Frame
import Superpose.Proofs.Run.Jobs
import Superpose.Proofs.Run.Order
import Superpose.Proofs.Run.Waves
import Superpose.Proofs.Run.Course
import Superpose.Proofs.Register.ExactlyOnce
import Superpose.Proofs.Reduction
import Superpose.Proofs.Selection
import Superpose.Proofs.Register.Collapse
import Superpose.Proofs.Register.OrderIndependence
import Superpose.Proofs.Register.Operation
import Superpose.Proofs.Register.Refusal
import Superpose.Proofs.Register.Collapsible
import Superpose.Proofs.Register.History
import Superpose.Proofs.Register.KeptValue
import Superpose.Proofs.Register.LatestRun
import Superpose.Proofs.Register.Completion
import Superpose.Proofs.Run.Looks
import Superpose.Proofs.Register.SingleSwitch
import Superpose.Proofs.Choice.Election
import Superpose.Proofs.Bus.Delivery
import Superpose.Proofs.Bus.Conservation
import Superpose.Proofs.Choice.Recall
import Superpose.Proofs.Register.Foresight
import Superpose.Proofs.Register.TrendHistory
import Superpose.Proofs.Register.Executing
import Superpose.Proofs.Register.Renewal
import Superpose.Proofs.Experience.Operation
import Superpose.Proofs.Experience.Accounting
import Superpose.Proofs.Experience.Separation
import Superpose.Proofs.Forecast.Operation
import Superpose.Proofs.Forecast.PatternTable
import Superpose.Proofs.Forecast.Overflow
import Superpose.Proofs.Workbench.Json.Number
import Superpose.Proofs.Workbench.Json.Text
import Superpose.Proofs.Workbench.Json.Codec
import Superpose.Proofs.Workbench.Json.Record
import Superpose.Proofs.Workbench.Json.Format
import Superpose.Proofs.Settings.RoundTrip
import Superpose.Proofs.Choice.Plurality
import Superpose.Proofs.Binary64.Holding
import Superpose.Proofs.Choice.Draw
import Superpose.Proofs.Choice.Speculation
import Superpose.Proofs.Register.Switching
import Superpose.Proofs.Forecast.Order
import Superpose.Proofs.Experience.Recommendation
import Superpose.Proofs.Register.SlowProgress
import Superpose.Proofs.Register.Attribution
import Superpose.Proofs.Choice.Criteria
import Superpose.Proofs.Choice.Climb
import Superpose.Proofs.Forecast.Cycles
import Superpose.Proofs.Register.TrendChoice
import Superpose.Proofs.Bus.Announcements
import Superpose.Proofs.Choice.Unanimity
import Superpose.Proofs.Bus.Knowledge
import Superpose.Proofs.Settings.Environment
import Superpose.Proofs.Workload.Similarity
import Superpose.Proofs.Workload.Timing
