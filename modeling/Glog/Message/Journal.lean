import Glog.Message.Console
import Glog.Message.Delivery
import Glog.Message.Mutex
import Glog.LogFile.Dispatch

/-! # The journal

A process logs one message after the other. `Journal` is what the receivers have got by then, together with the variables
of `logging.cc` that the messages leave behind: whether the warning has been written, whether a fatal message has been
made, and the beginning of that. What a receiver gets is then read off the list of the messages. Nobody is mailed: the
library says so on stderr in the place of it.

A fatal message releases `log_mutex` twice. What comes of the mutex then is not defined: a message behind it may wait for
it forever, and then nothing more is done. -/

namespace Glog.LogMessage
open LogFile Run

/-- A logging statement, with its flags, and what the system answers to the loggers. The storage of the message may hold
    something already. -/
structure Entry where
  prefixFlags : PrefixFlags
  info : LogMessageInfo
  sendMethod : SendMethod
  pointer : Bool
  buf : LogStreamBuf
  insertions : List Text
  flags : Flags
  colorFlags : ColorFlags
  throws : Event → Bool
  timestamp : Int
  env : Severity → Env
  flushEnv : Severity → Env
  /-- A mutex that has been released too often can still be had. -/
  acquires : Bool

/-- A call of `ReprintFatalMessage`, with the flags and what the system answers. -/
structure Reprint where
  logtostderr : Bool
  logtostdout : Bool
  stderrthreshold : Int
  colorFlags : ColorFlags
  env : Severity → Env

inductive Operation
  | log (m : Entry)
  | reprint (p : Reprint)

structure Journal where
  loggers : Loggers
  /-- What the receivers other than the log files have been given, call after call. -/
  given : Receiver → List Text
  alreadyWarnedBeforeInitgoogle : Bool
  fatalMsgExclusive : Bool
  fatalMessage : Text
  fatalTime : Int
  /-- `log_mutex` has been released once too often. -/
  overReleased : Bool
  /-- A message waits for it forever. -/
  waits : Bool

def Journal.start (s : Loggers) : Journal where
  loggers := s
  given _ := []
  alreadyWarnedBeforeInitgoogle := false
  fatalMsgExclusive := true
  fatalMessage := []
  fatalTime := 0
  overReleased := false
  waits := false

def warningText : Text := "WARNING: Logging before InitGoogleLogging() is written to STDERR\n".toList

/-- What `SendEmailInternal` writes; there is no `\n` behind it. -/
def emailsDisabledText : Text := "Sending emails is disabled (#11930).".toList

def stackTraceText : Text := "*** Check failure stack trace: ***\n".toList

namespace Journal

def give (r : Receiver) (text : Text) (j : Journal) : Journal :=
  { j with given := fun r' => if r' = r then j.given r' ++ [text] else j.given r' }

/-- `LogDestination::MaybeLogToLogfile`. -/
def maybeLogToLogfile (cfg : Config) (i : Severity) (env : Severity → Env) (timestamp : Int) (message : Text)
    (j : Journal) : Journal :=
  { j with loggers := writeTo cfg i (env i) (decide (i.toInt > cfg.logbuflevel)) timestamp message j.loggers }

end Journal

/-- What is made of a text on the way to its receiver. -/
def rendered (flags : ColorFlags) (severity : Severity) : Receiver → Text → Text
  | .stdout, text => coloredWriteToStderrOrStdout flags true severity text
  | .stderr, text => coloredWriteToStderrOrStdout flags false severity text
  | .syslog, text => cString text
  | _, text => text

section
variable (cfg : Config) (m : Entry)

/-- What an event of a `Flush` does; `d` is the data of the message while it is sent. -/
def deliver (d : LogMessageData) (j : Journal) : Event → Journal
  | .send (.logfile i) start length => j.maybeLogToLogfile cfg i m.env m.timestamp (slice d.buf.text start length)
  | .send .email _ _ => j.give .stderr emailsDisabledText
  | .send r start length => j.give r (rendered m.colorFlags m.info.severity r (slice d.buf.text start length))
  | .warning => { j.give .stderr warningText with alreadyWarnedBeforeInitgoogle := true }
  | .storeFatal length => { j with fatalMessage := slice d.buf.text 0 length, fatalTime := m.timestamp }
  | .flushLogfile i =>
    if (j.loggers.object i).isSome then { j with loggers := writeTo cfg i (m.flushEnv i) true 0 [] j.loggers } else j
  | .stackTrace => j.give .stderr stackTraceText
  | .access _ | .lock | .unlock | .count | .logToSinks _ _ | .wait _ _ | .waitOwn _ => j

/-- Whether the message is made in one of the two storages for fatal messages. -/
def Entry.isFatal : Bool := m.info.severity == .fatal && m.flags.exitOnDfatal

/-- The flags with the variables that they stand for. -/
def Entry.flagsIn (j : Journal) : Flags :=
  { m.flags with
    alreadyWarnedBeforeInitgoogle := j.alreadyWarnedBeforeInitgoogle
    logDestinations := Severity.all }

/-- The data of the message when it has been filled. -/
def Entry.data (j : Journal) : LogMessageData :=
  filled m.prefixFlags m.info m.sendMethod m.pointer (m.isFatal && j.fatalMsgExclusive) m.buf m.insertions

/-- The message is constructed, filled, flushed and destroyed. -/
def Entry.perform (j : Journal) : Journal :=
  (flush (m.flagsIn j) m.throws (m.data j)).events.foldl (deliver cfg m (edited (m.data j)))
    { j with
      fatalMsgExclusive := j.fatalMsgExclusive && !m.isFatal
      overReleased := j.overReleased || releasesTwice (m.flagsIn j) m.throws (m.data j) }

/-- `Flush` waits for the mutex, if the message is due. -/
def Entry.execute (j : Journal) : Journal :=
  if j.overReleased ∧ LogMessage.isDue (m.flagsIn j) (m.data j) ∧ ¬ m.acquires then { j with waits := true }
  else m.perform cfg j

end

section
variable (cfg : Config) (p : Reprint)

/-- `LogDestination::LogToAllLogfiles` for the message of a severity. -/
def Reprint.logToAllLogfiles (severity : Severity) (timestamp : Int) (message : Text) (j : Journal) : Journal :=
  if p.logtostdout then
    let output := if severity.toInt ≥ p.stderrthreshold then Receiver.stderr else .stdout
    j.give output (rendered p.colorFlags severity output message)
  else if p.logtostderr then j.give .stderr (rendered p.colorFlags severity .stderr message)
  else severity.andLower.foldl (fun j i => j.maybeLogToLogfile cfg i p.env timestamp message) j

/-- `ReprintFatalMessage`. -/
def Reprint.execute (j : Journal) : Journal :=
  let message := cString j.fatalMessage
  if message = [] then j
  else
    -- Also write to stderr (don't color to avoid terminal checks)
    p.logToAllLogfiles cfg .error j.fatalTime message (if p.logtostderr then j else j.give .stderr message)

end

def Operation.execute (cfg : Config) (j : Journal) (op : Operation) : Journal :=
  if j.waits then j
  else
    match op with
    | .log m => m.execute cfg j
    | .reprint p => p.execute cfg j

/-! ### Who gets what -/

namespace Entry
variable (m : Entry)

/-- `FLAGS_minloglevel` is not above the severity. -/
def isDue : Bool := decide (m.flags.minloglevel ≤ m.info.severity.toInt)

/-- The message goes through `SendToLog`. -/
def logs : Bool :=
  m.isDue &&
    match m.sendMethod with
    | .sendToSink => false
    | .saveOrSendToLog => !m.pointer
    | _ => true

/-- The message goes to the log files, and not to the console in their place. -/
def toFiles : Bool := m.flags.initialized && !m.flags.logtostderr && !m.flags.logtostdout

def aboveThreshold : Bool := decide (m.flags.stderrthreshold ≤ m.info.severity.toInt)

def routed : Receiver → Bool
  | .stdout => m.logs && m.flags.logtostdout && !m.aboveThreshold
  | .stderr =>
    m.logs &&
      if m.flags.logtostdout then m.aboveThreshold
      else !m.toFiles || m.aboveThreshold || m.flags.alsologtostderr
  | .logfile i => m.logs && m.toFiles && decide (i.toInt ≤ m.info.severity.toInt)
  | .email => false
  | .sink i => m.logs && decide (i < m.flags.sinks)
  | .ownSink => m.isDue && m.pointer && (m.sendMethod == .sendToSink || m.sendMethod == .sendToSinkAndLog)
  | .outvec => m.isDue && m.pointer && m.sendMethod == .saveOrSendToLog
  | .string => m.isDue && m.pointer && m.sendMethod == .writeToStringAndLog
  | .syslog => m.isDue && m.sendMethod == .sendToSyslogAndLog

def line : Text := lineOf (messagePrefix m.prefixFlags m.info) (messageText m.prefixFlags m.info m.insertions)

def body : Text := bodyOf (messagePrefix m.prefixFlags m.info) (messageText m.prefixFlags m.info m.insertions)

/-- The body with the `\n` that the message ends in already, if it does. -/
def syslogText : Text :=
  ((messagePrefix m.prefixFlags m.info ++ messageText m.prefixFlags m.info m.insertions).take capacity).drop
    (min capacity (messagePrefix m.prefixFlags m.info).length)

/-- The text for a receiver. -/
def textFor (r : Receiver) : Text :=
  rendered m.colorFlags m.info.severity r
    (if r.takesLine then m.line else if r.takesBody then m.body else m.syslogText)

/-- The message is logged, and logging is not initialized. -/
def isEarly : Bool := m.logs && !m.flags.initialized

/-- The message is one to be mailed. -/
def isMailed : Bool :=
  m.logs && m.toFiles &&
    decide (m.flags.emailLoggingSeverity ≤ m.info.severity.toInt ∨ m.flags.logemaillevel ≤ m.info.severity.toInt)

/-- What a receiver is given; `warned` tells whether the warning has been written before. -/
def share (warned : Bool) : Receiver → List Text
  | .stderr =>
    (if m.isEarly && !warned then [warningText] else []) ++ (if m.routed .stderr then [m.textFor .stderr] else []) ++
      (if m.isMailed then [emailsDisabledText] else []) ++ if m.logs && m.isFatal then [stackTraceText] else []
  | r => if m.routed r then [m.textFor r] else []

end Entry

/-- What a receiver is given of a fatal message that is printed again. -/
def Reprint.share (p : Reprint) (message : Text) : Receiver → List Text
  | .stdout =>
    if p.logtostdout ∧ Severity.error.toInt < p.stderrthreshold then [rendered p.colorFlags .error .stdout message] else []
  | .stderr =>
    (if p.logtostderr then [] else [message]) ++
      if (p.logtostdout ∧ p.stderrthreshold ≤ Severity.error.toInt) ∨ (¬ p.logtostdout ∧ p.logtostderr) then
        [rendered p.colorFlags .error .stderr message]
      else []
  | .logfile i => if ¬ p.logtostdout ∧ ¬ p.logtostderr ∧ i.toInt ≤ Severity.error.toInt then [message] else []
  | _ => []

/-! ### What has been done -/

namespace Operation

def isEarly : Operation → Bool
  | .log m => m.isEarly
  | .reprint _ => false

def isFatal : Operation → Bool
  | .log m => m.isFatal
  | .reprint _ => false

/-- `SendToLog` releases the mutex by hand. -/
def releases : Operation → Bool
  | .log m => m.logs && m.isFatal
  | .reprint _ => false

/-- Whether an operation waits for the mutex forever, by what has been done before. -/
def waits (before : List Operation) : Operation → Bool
  | .log m => before.any releases && m.isDue && !m.acquires
  | .reprint _ => false

/-- The operations that are done: up to the first one that waits forever. -/
def reached : (before ops : List Operation) → List Operation
  | _, [] => []
  | before, op :: ops => if op.waits before then [] else op :: reached (before ++ [op]) ops

/-- What is kept of a fatal message. -/
def kept : Operation → Text
  | .log m => if m.logs then m.line.take 255 else []
  | .reprint _ => []

/-- Only the first fatal message is kept. -/
def fatalMessage (before : List Operation) : Text := (before.find? isFatal).elim [] kept

/-- What an operation gives to a receiver, by what has been done before. -/
def share (before : List Operation) (r : Receiver) : Operation → List Text
  | .log m => m.share (before.any isEarly) r
  | .reprint p => if cString (fatalMessage before) = [] then [] else p.share (cString (fatalMessage before)) r

/-- What a list of operations gives to a receiver. -/
def shares (r : Receiver) : (before ops : List Operation) → List Text
  | _, [] => []
  | before, op :: ops => op.share before r ++ shares r (before ++ [op]) ops

end Operation

end Glog.LogMessage
