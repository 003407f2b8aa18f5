import UnifiedTrace.ActionRun
import UnifiedTrace.Attribution
import UnifiedTrace.BoundedMap
import UnifiedTrace.CallRun
import UnifiedTrace.Common
import UnifiedTrace.MissedProbes
import UnifiedTrace.NestedCalls
import UnifiedTrace.TraceCuda
import UnifiedTrace.Sampling
import UnifiedTrace.Schedule
import UnifiedTrace.StackOwners
import UnifiedTrace.PidFilters
import UnifiedTrace.Blazesym
import UnifiedTrace.Collect
import UnifiedTrace.Printf
import UnifiedTrace.StackJson
import UnifiedTrace.ChromeTrace
import UnifiedTrace.Spans
import UnifiedTrace.OnCpu
import UnifiedTrace.TargetSpans
import UnifiedTrace.LostEvents
import UnifiedTrace.AllSpans
import UnifiedTrace.JsonGrammar
import UnifiedTrace.JsonText
import UnifiedTrace.StackText
import UnifiedTrace.RecordText
import UnifiedTrace.WellFormed
import UnifiedTrace.CallSpans
import UnifiedTrace.InFlight
import UnifiedTrace.Shutdown
import UnifiedTrace.EventRecords
import UnifiedTrace.Rows
import UnifiedTrace.Identity
import UnifiedTrace.Merge
import UnifiedTrace.CallChain
import UnifiedTrace.StackTable
import UnifiedTrace.PinnedStacks
import UnifiedTrace.NameText
import UnifiedTrace.TraceValue
import UnifiedTrace.SpanEnds
import UnifiedTrace.Expansion
import UnifiedTrace.FrameLimit
import UnifiedTrace.JsonEscape
import UnifiedTrace.CommandLine
import UnifiedTrace.EventShape
import UnifiedTrace.ThreadIsolation
import UnifiedTrace.MockWorkload
import UnifiedTrace.ValidateTrace
import UnifiedTrace.MockEndToEnd
import UnifiedTrace.CallsInTrace
import UnifiedTrace.RecordLayout
import UnifiedTrace.WireFormat
import UnifiedTrace.EventArray
import UnifiedTrace.ObjectConfig
import UnifiedTrace.ResourceLog
import UnifiedTrace.ProbeTable
import UnifiedTrace.Startup
import UnifiedTrace.AttachedProbes
import UnifiedTrace.ConsoleTracers
import UnifiedTrace.AgentReport
import UnifiedTrace.SymbolizerLog
import UnifiedTrace.FrameArray
import UnifiedTrace.CountPackets
import UnifiedTrace.Columns
import UnifiedTrace.ExecConsole
import UnifiedTrace.SortedArray
