import Glog.Backtrack.Fix
import Glog.Demangle.Entry
import Glog.Demangle.Failure
import Glog.Backtrack.Reads
import Glog.Demangle.Grammar
import Glog.Demangle.Soundness
import Glog.Demangle.Bounds
import Glog.Demangle.Stale
import Glog.Demangle.Terminator
import Glog.Backtrack.Steps
import Glog.Demangle.First
import Glog.Demangle.Config
import Glog.Demangle.Names
import Glog.Demangle.Nested
import Glog.Demangle.Signatures
import Glog.Demangle.RoundTrip
import Glog.Demangle.Siblings
import Glog.LogFile.Object
import Glog.LogFile.Write
import Glog.Run.Guarded
import Glog.LogFile.Steps
import Glog.LogFile.LogSize
import Glog.LogFile.Loggers
import Glog.LogFile.Bounded
import Glog.LogFile.Rolling
import Glog.LogFile.Destination
import Glog.LogFile.Fork
import Glog.LogFile.Retention
import Glog.LogFile.Dispatch
import Glog.LogFile.Suitable
import Glog.LogFile.Creation
import Glog.LogFile.History
import Glog.Cleaner.Recognize
import Glog.Cleaner.Naming
import Glog.Cleaner.Agreement
import Glog.Message.Buffer
import Glog.Message.Flush
import Glog.Message.Mutex
import Glog.Message.Failure
import Glog.Message.Delivery
import Glog.Message.Storage
import Glog.Vlog.Match
import Glog.Vlog.State
import Glog.Vlog.Sites
import Glog.Vlog.Runs
import Glog.Vlog.Decisions
import Glog.Vlog.Levels
import Glog.Truncate.Tail
import Glog.Symbolize.Object
import Glog.Symbolize.Reading
import Glog.Symbolize.Table
import Glog.Symbolize.Scans
import Glog.Symbolize.Termination
import Glog.Run.Fuel
import Glog.Symbolize.Faults
import Glog.Sinks.Dispatch
import Glog.Sinks.Callback
import Glog.Sinks.Waiting
import Glog.Message.Once
import Glog.Message.Ownership
import Glog.LogFile.FlushAll
import Glog.LogFile.Registry
import Glog.Backtrack.Relates
import Glog.Demangle.Frame
import Glog.Demangle.NoOutput
import Glog.Demangle.Ctor
import Glog.Demangle.Extent
import Glog.Demangle.Room
import Glog.Demangle.Sizes
import Glog.Demangle.Scant
import Glog.Demangle.Exact
import Glog.Memory.Cells
import Glog.Signalhandler.Formatter
import Glog.Signalhandler.Padding
import Glog.Message.Raw
import Glog.Cleaner.Interval
import Glog.Cleaner.Removal
import Glog.LogFile.Counters
import Glog.LogFile.Advice
import Glog.LogFile.FlushCount
import Glog.LogFile.Exclusive
import Glog.Files.Links
import Glog.Files.Locks
import Glog.LogFile.Symlink
import Glog.Vlog.Segments
import Glog.Demangle.Cursor
import Glog.Demangle.Literals
import Glog.Occasional.Sites
import Glog.Occasional.Counter
import Glog.Demangle.Windows
import Glog.Symbolize.Itoa
import Glog.Symbolize.GetHex
import Glog.Symbolize.Linear
import Glog.Stacktrace.Walk
import Glog.Stacktrace.Unwind
import Glog.Text.Lines
import Glog.Symbolize.LineReader
import Glog.Symbolize.Maps
import Glog.Symbolize.Image
import Glog.Symbolize.Mappings
import Glog.Message.StrError
import Glog.Message.Errno
import Glog.Message.ToString
import Glog.LogFile.Directories
import Glog.Files.Descriptor
import Glog.Truncate.Fallback
import Glog.Text.Scan
import Glog.Text.Digits
import Glog.Demangle.Indexed
import Glog.Demangle.CloneSuffix
import Glog.Signals.Process
import Glog.Signalhandler.Handler
import Glog.Signalhandler.Crash
import Glog.Signalhandler.Report
import Glog.LogFile.Clients
import Glog.LogFile.Owned
import Glog.Message.Console
import Glog.Message.Journal
import Glog.Message.Shares
import Glog.Message.Kept
import Glog.Symbolize.Entry
import Glog.Symbolize.Outcome
import Glog.Symbolize.Program
import Glog.Occasional.Threads
