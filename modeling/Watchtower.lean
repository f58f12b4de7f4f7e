import Watchtower.Foundation.Machine
import Watchtower.Foundation.Regex
import Watchtower.Parse
import Watchtower.Chrono
import Watchtower.BucketRuns
import Watchtower.Foundation.TimedLog
import Watchtower.AlertSpacing
import Watchtower.WindowSpec
import Watchtower.ExtraTraffic
import Watchtower.ClockSteps
import Watchtower.Replay
import Watchtower.Foundation.LinearRefill
import Watchtower.Foundation.TimedGate
import Watchtower.Email
import Watchtower.EmailRuns
import Watchtower.EmailCap
import Watchtower.EmailDedup
import Watchtower.BracketPrefix
import Watchtower.Journal
import Watchtower.Pipeline
import Watchtower.TokenRuns
import Watchtower.Fields
import Watchtower.TripleFormat
import Watchtower.BucketKeys
import Watchtower.StepForm
import Watchtower.ParsedAlerts
import Watchtower.Ntfy
import Watchtower.HeaderSafety
import Watchtower.AutoClaude
import Watchtower.Transcript
import Watchtower.Permits
import Watchtower.DedupMemory
import Watchtower.FanOut
import Watchtower.Heartbeat
import Watchtower.JournalEncoding
import Watchtower.Staleness
import Watchtower.CivilTime
import Watchtower.IncidentSlugs
import Watchtower.BodyLines
import Watchtower.Foundation.Bank
import Watchtower.Logger
import Watchtower.Sinks
import Watchtower.NoticeRates
import Watchtower.Startup
import Watchtower.Launch
import Watchtower.Worktrees
import Watchtower.FixAuthority
import Watchtower.Foundation.Shuffle
import Watchtower.TranscriptStreams
import Watchtower.Foundation.Descent
import Watchtower.Shutdown
import Watchtower.Foundation.SkippedTicks
import Watchtower.HeartbeatTicks
import Watchtower.Coverage
import Watchtower.Recovery
import Watchtower.EnvReads
import Watchtower.HeartbeatBody
import Watchtower.Foundation.Preference
import Watchtower.FieldSpec
import Watchtower.Foundation.Selection
import Watchtower.Evidence
import Watchtower.WindowMemory
import Watchtower.Foundation.Bench
import Watchtower.EndToEnd
