import Aquarium.Device.Basic
import Aquarium.Device.Error
import Aquarium.Device.Outputs
import Aquarium.Device.Sensor
import Aquarium.Device.Source
import Aquarium.Device.Waveform
import Aquarium.Fault
import Aquarium.Json.Basic
import Aquarium.Json.Decode
import Aquarium.Json.Parser
import Aquarium.Json.Printer
import Aquarium.Json.Token
import Aquarium.Number.Float
import Aquarium.Number.Numeral
import Aquarium.Number.Shortest
import Aquarium.Number.Sine
import Aquarium.Proofs.Device.Recurrence
import Aquarium.Proofs.Device.Run
import Aquarium.Proofs.Device.Update
import Aquarium.Proofs.Json.Building
import Aquarium.Proofs.Json.Lexing
import Aquarium.Proofs.Number.Digits
import Aquarium.Proofs.Number.Double
import Aquarium.Proofs.Number.Numeral
import Aquarium.Proofs.Number.Packing
import Aquarium.Proofs.Number.Ratios
import Aquarium.Proofs.Number.RoundTrip
import Aquarium.Proofs.Number.Rounding
import Aquarium.Proofs.Number.Shortest
import Aquarium.Proofs.Schedule.Day
import Aquarium.Proofs.Schedule.Entries
import Aquarium.Proofs.Schedule.Format
import Aquarium.Proofs.Schedule.Occurrence
import Aquarium.Proofs.Schedule.Search
import Aquarium.Proofs.Schedule.Week
import Aquarium.Proofs.Service.Interleaving
import Aquarium.Proofs.Service.Restart
import Aquarium.Proofs.Service.Sections
import Aquarium.Proofs.Service.Stages
import Aquarium.Proofs.Settings.Format
import Aquarium.Proofs.Slots
import Aquarium.Sampling.FilterSettings
import Aquarium.Sampling.SampleWindow
import Aquarium.Schedule.DaySchedule
import Aquarium.Schedule.Error
import Aquarium.Schedule.Format
import Aquarium.Schedule.WeekSchedule
import Aquarium.Service.Controller
import Aquarium.Service.Edit
import Aquarium.Service.Request
import Aquarium.Settings.Basic
import Aquarium.Settings.Format
import Aquarium.Slots
import Aquarium.Store
import Aquarium.Task.Pool
import Aquarium.Task.Worker
import Aquarium.Text.Blank
import Aquarium.Text.Form
import Aquarium.Text.MediaType
import Aquarium.Time.Calendar
import Aquarium.Time.Day
import Aquarium.Time.Duration
import Aquarium.Time.Week
import Aquarium.Time.Zone
import Aquarium.Tracker
import Aquarium.Transition
import Aquarium.Proofs.Schedule.Maps
import Aquarium.Proofs.Schedule.Loading
import Aquarium.Proofs.Schedule.Rebuilding
import Aquarium.Proofs.Device.EditedRun
import Aquarium.Proofs.Device.ClockBack
import Aquarium.Proofs.Service.History
import Aquarium.Proofs.Service.EditMaps
import Aquarium.Proofs.Service.Course
import Aquarium.Proofs.Service.Answers
import Aquarium.Proofs.Service.ChannelTimes
import Aquarium.Proofs.Task.Pass
import Aquarium.Proofs.Task.Table
import Aquarium.Proofs.Task.History
import Aquarium.Proofs.Task.Ownership
import Aquarium.Proofs.Task.Calls
import Aquarium.Proofs.Task.Failing
import Aquarium.Proofs.Task.Wakeup
import Aquarium.Proofs.Sampling.History
import Aquarium.Proofs.Sampling.Latest
import Aquarium.Proofs.Sampling.Rejections
import Aquarium.Proofs.Schedule.Apart
import Aquarium.Proofs.Device.SingleShot
import Aquarium.Proofs.Service.Files
import Aquarium.Proofs.Service.Resuming
import Aquarium.Proofs.Settings.Rereading
import Aquarium.Proofs.Service.ModeChanges
import Aquarium.Proofs.Task.Deadline
import Aquarium.Proofs.Sampling.Bound
import Aquarium.Proofs.Device.Interpolation
import Aquarium.Proofs.Settings.Partial
import Aquarium.Proofs.Device.Duty
import Aquarium.Proofs.Device.Refusal
import Aquarium.Proofs.Settings.Sanitizing
import Aquarium.Proofs.Time.WeekClock
import Aquarium.Proofs.Slots.Compaction
