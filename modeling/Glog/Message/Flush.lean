import Glog.Message.Buffer
import Glog.Run.Actions

/-! # Sending a message

`LogMessage::Flush` and the methods that it sends a message with. A method is given as the list of what it does,
in the order of the source; what it calls outside of the library may throw, and then the rest of the list is not
done. Whether a sink is `sink_` of the message, or one of those that are registered, makes two receivers. -/

namespace Glog.LogMessage
open LogFile Run

inductive SendMethod
  | sendToLog
  | sendToSink
  | sendToSinkAndLog
  | saveOrSendToLog
  | writeToStringAndLog
  | sendToSyslogAndLog
  deriving DecidableEq

structure LogMessageData where
  buf : LogStreamBuf
  severity : Severity
  sendMethod : SendMethod
  /-- Whether `sink_`, `outvec_` or `message_`, which share their place, is not null. -/
  pointer : Bool
  numPrefixChars : Nat
  numCharsToLog : Nat
  numCharsToSyslog : Nat
  hasBeenFlushed : Bool
  firstFatal : Bool

/-- The constructor: the array is not initialized. -/
def LogStreamBuf.new (text : Nat → Char) : LogStreamBuf := ⟨text, 0, Nat.zero_le _⟩

/-- `Init` in the storage that has been selected; the kind of message and its pointer come from the constructor. -/
def init (flags : PrefixFlags) (info : LogMessageInfo) (sendMethod : SendMethod) (pointer firstFatal : Bool)
    (buf : LogStreamBuf) :
    LogMessageData :=
  let buf := buf.insert (messagePrefix flags info)
  { buf := buf.insert (backtrace flags info)
    severity := info.severity
    sendMethod := sendMethod
    pointer := pointer
    numPrefixChars := buf.pcount
    numCharsToLog := 0
    numCharsToSyslog := 0
    hasBeenFlushed := false
    firstFatal := firstFatal }

/-- An insertion into the stream. -/
def stream (l : Text) (d : LogMessageData) : LogMessageData := { d with buf := d.buf.insert l }

structure Flags where
  minloglevel : Int
  exitOnDfatal : Bool
  logtostderr : Bool
  logtostdout : Bool
  stderrthreshold : Int
  alsologtostderr : Bool
  emailLoggingSeverity : Int
  logemaillevel : Int
  /-- `IsGoogleLoggingInitialized`. -/
  initialized : Bool
  alreadyWarnedBeforeInitgoogle : Bool
  /-- How many sinks are registered. -/
  sinks : Nat
  /-- The severities with a log destination. -/
  logDestinations : List Severity

/-- Who is given a part of the text. -/
inductive Receiver
  | stdout
  | stderr
  | logfile (severity : Severity)
  | email
  | sink (i : Nat)
  | ownSink
  | outvec
  | string
  | syslog
  deriving DecidableEq

/-- Those that are given the message with its prefix and the `\n`. -/
def Receiver.takesLine : Receiver → Bool
  | .stdout | .stderr | .logfile _ | .email => true
  | _ => false

/-- Those that are given the message alone. -/
def Receiver.takesBody : Receiver → Bool
  | .sink _ | .ownSink | .outvec | .string => true
  | _ => false

inductive Event
  /-- A place of `message_text_` is read or written. -/
  | access (place : Nat)
  | lock
  | unlock
  /-- `num_messages_` is incremented. -/
  | count
  | warning
  /-- `LogToSinks` is called. -/
  | logToSinks (start length : Nat)
  | send (receiver : Receiver) (start length : Nat)
  /-- The crash reason and the beginning of the text are stored. -/
  | storeFatal (length : Nat)
  | flushLogfile (severity : Severity)
  /-- `WaitTillSent` of a registered sink; `last` tells the call of `Flush` from that of `SendToLog`. -/
  | wait (last : Bool) (i : Nat)
  | waitOwn (last : Bool)
  | stackTrace
  deriving DecidableEq

/-- Calls of code that can throw. -/
def Event.mayThrow : Event → Bool
  | .send receiver _ _ => receiver != .stdout && receiver != .stderr && receiver != .syslog
  | .flushLogfile _ | .wait _ _ | .waitOwn _ => true
  | _ => false

def Event.stops (throws : Event → Bool) (e : Event) : Bool := e.mayThrow && throws e

/-- What is done until something throws, and whether it did. -/
def perform (throws : Event → Bool) (l : List Event) : List Event × Bool := Run.upTo (Event.stops throws) l

/-! ### The methods -/

section
variable (flags : Flags) (d : LogMessageData)

/-- The length without the prefix and the `\n`. -/
def bodyLength : Nat := sizeSub (sizeSub d.numCharsToLog d.numPrefixChars) 1

def logToSinks : List Event :=
  .logToSinks d.numPrefixChars (bodyLength d) ::
    (List.range flags.sinks).reverse.map fun i => .send (.sink i) d.numPrefixChars (bodyLength d)

def coloredWriteToStdout : List Event :=
  [.send (if d.severity.toInt ≥ flags.stderrthreshold then .stderr else .stdout) 0 d.numCharsToLog]

def coloredWriteToStderr : List Event := [.send .stderr 0 d.numCharsToLog]

/-- A message goes to the log files of its severity and of those below. -/
def severitiesBelow : Severity → List Severity
  | .info => [.info]
  | .warning => [.warning, .info]
  | .error => [.error, .warning, .info]
  | .fatal => [.fatal, .error, .warning, .info]

def logToAllLogfiles : List Event :=
  if flags.logtostdout then coloredWriteToStdout flags d
  else if flags.logtostderr then coloredWriteToStderr d
  else (severitiesBelow d.severity).map fun severity => .send (.logfile severity) 0 d.numCharsToLog

def maybeLogToStderr : List Event :=
  if d.severity.toInt ≥ flags.stderrthreshold ∨ flags.alsologtostderr then coloredWriteToStderr d else []

def maybeLogToEmail : List Event :=
  if d.severity.toInt ≥ flags.emailLoggingSeverity ∨ d.severity.toInt ≥ flags.logemaillevel then
    [.send .email 0 d.numCharsToLog]
  else []

def waitForSinks (last : Bool) : List Event :=
  (List.range flags.sinks).reverse.map (fun i => .wait last i) ++
    if (d.sendMethod = .sendToSink ∨ d.sendMethod = .sendToSinkAndLog) ∧ d.pointer then [.waitOwn last] else []

/-- `SendToLog`, up to the part for fatal messages. -/
def sendToDestinations : List Event :=
  (if ¬ flags.alreadyWarnedBeforeInitgoogle ∧ ¬ flags.initialized then [.warning] else []) ++
  if flags.logtostderr ∨ flags.logtostdout ∨ ¬ flags.initialized then
    (if flags.logtostdout then coloredWriteToStdout flags d else coloredWriteToStderr d) ++ logToSinks flags d
  else
    -- log this message to all log files of severity <= severity_
    logToAllLogfiles flags d ++ maybeLogToStderr flags d ++ maybeLogToEmail flags d ++ logToSinks flags d

/-- Whether the message is meant to end the program. -/
def isFatal : Bool := d.severity == .fatal && flags.exitOnDfatal

/-- What is done for a fatal message before the mutex is released. -/
def leaveLogs : List Event :=
  (if d.firstFatal then [.storeFatal (min d.numCharsToLog 255)] else []) ++
    if flags.logtostderr = false ∧ flags.logtostdout = false then flags.logDestinations.map .flushLogfile else []

def sendToLog : List Event :=
  sendToDestinations flags d ++
    if isFatal flags d then
      -- release the lock that our caller grabbed
      leaveLogs flags d ++ .unlock :: (waitForSinks flags d false ++ [.stackTrace])
    else []

def sendToSink : List Event := if d.pointer then [.send .ownSink d.numPrefixChars (bodyLength d)] else []

def sendToSinkAndLog : List Event := sendToSink d ++ sendToLog flags d

def saveOrSendToLog : List Event :=
  -- Omit prefix of message and trailing newline when recording in outvec_.
  if d.pointer then [.send .outvec d.numPrefixChars (bodyLength d)] else sendToLog flags d

def writeToStringAndLog : List Event :=
  (if d.pointer then [.send .string d.numPrefixChars (bodyLength d)] else []) ++ sendToLog flags d

def sendToSyslogAndLog : List Event := .send .syslog d.numPrefixChars d.numCharsToSyslog :: sendToLog flags d

def send : List Event :=
  match d.sendMethod with
  | .sendToLog => sendToLog flags d
  | .sendToSink => sendToSink d
  | .sendToSinkAndLog => sendToSinkAndLog flags d
  | .saveOrSendToLog => saveOrSendToLog flags d
  | .writeToStringAndLog => writeToStringAndLog flags d
  | .sendToSyslogAndLog => sendToSyslogAndLog flags d

end

/-! ### What the methods do -/

/-- An event of a method, other than the release of the mutex, with the part of the text that it is about. -/
inductive Part (d : LogMessageData) : Event → Prop
  | warning : Part d .warning
  | line {r : Receiver} (h : r.takesLine = true) : Part d (.send r 0 d.numCharsToLog)
  | body {r : Receiver} (h : r.takesBody = true) : Part d (.send r d.numPrefixChars (bodyLength d))
  | syslog : Part d (.send .syslog d.numPrefixChars d.numCharsToSyslog)
  | logToSinks : Part d (.logToSinks d.numPrefixChars (bodyLength d))
  | storeFatal : Part d (.storeFatal (min d.numCharsToLog 255))
  | flushLogfile (severity : Severity) : Part d (.flushLogfile severity)
  | wait (last : Bool) (i : Nat) : Part d (.wait last i)
  | waitOwn (last : Bool) : Part d (.waitOwn last)
  | stackTrace : Part d .stackTrace

section
variable (flags : Flags) (d : LogMessageData)

/-- What a method does before it calls `SendToLog`. -/
def beforeLog : List Event :=
  match d.sendMethod with
  | .sendToLog | .saveOrSendToLog => []
  | .sendToSink | .sendToSinkAndLog => sendToSink d
  | .writeToStringAndLog => if d.pointer then [.send .string d.numPrefixChars (bodyLength d)] else []
  | .sendToSyslogAndLog => [.send .syslog d.numPrefixChars d.numCharsToSyslog]

/-- Whether the method calls `SendToLog`. -/
def callsSendToLog : Bool :=
  match d.sendMethod with
  | .sendToSink => false
  | .saveOrSendToLog => !d.pointer
  | _ => true

/-- What is done before the mutex is released by hand. -/
def beforeUnlock : List Event := beforeLog d ++ sendToDestinations flags d ++ leaveLogs flags d

variable {flags d}

theorem part_sendToSink : Every (Part d) (sendToSink d) := every_ite (every_singleton (.body rfl)) every_nil

theorem part_beforeLog : Every (Part d) (beforeLog d) := by
  unfold beforeLog
  split
  · exact every_nil
  · exact every_nil
  · exact part_sendToSink
  · exact part_sendToSink
  · exact every_ite (every_singleton (.body rfl)) every_nil
  · exact every_singleton .syslog

theorem part_logToSinks : Every (Part d) (logToSinks flags d) := (every_map (fun _ => .body rfl) _).cons .logToSinks

theorem part_coloredWriteToStderr : Every (Part d) (coloredWriteToStderr d) := every_singleton (.line rfl)

theorem part_coloredWriteToStdout : Every (Part d) (coloredWriteToStdout flags d) := by
  unfold coloredWriteToStdout
  split
  · exact every_singleton (.line rfl)
  · exact every_singleton (.line rfl)

theorem part_sendToDestinations : Every (Part d) (sendToDestinations flags d) := by
  have hfiles : Every (Part d) (logToAllLogfiles flags d) :=
    every_ite part_coloredWriteToStdout (every_ite part_coloredWriteToStderr (every_map (fun _ => .line rfl) _))
  have hstderr : Every (Part d) (maybeLogToStderr flags d) := every_ite part_coloredWriteToStderr every_nil
  have hemail : Every (Part d) (maybeLogToEmail flags d) := every_ite (every_singleton (.line rfl)) every_nil
  refine (every_ite (every_singleton .warning) every_nil).append (every_ite ?_ ?_)
  · exact (every_ite part_coloredWriteToStdout part_coloredWriteToStderr).append part_logToSinks
  · exact ((hfiles.append hstderr).append hemail).append part_logToSinks

theorem part_leaveLogs : Every (Part d) (leaveLogs flags d) :=
  (every_ite (every_singleton .storeFatal) every_nil).append (every_ite (every_map .flushLogfile _) every_nil)

theorem part_waitForSinks {last : Bool} : Every (Part d) (waitForSinks flags d last) :=
  (every_map (.wait last) _).append (every_ite (every_singleton (.waitOwn last)) every_nil)

theorem part_beforeUnlock : Every (Part d) (beforeUnlock flags d) :=
  (part_beforeLog.append part_sendToDestinations).append part_leaveLogs

theorem send_eq_of_calls (h : callsSendToLog d = true) : send flags d = beforeLog d ++ sendToLog flags d := by
  unfold callsSendToLog at h
  unfold send beforeLog
  cases hmethod : d.sendMethod <;> rw [hmethod] at h
  case sendToSink => cases h
  case saveOrSendToLog =>
    have hpointer : d.pointer = false := by simpa using h
    rw [saveOrSendToLog, hpointer]
    rfl
  all_goals rfl

/-- A method that releases the mutex does so behind `beforeUnlock`. -/
theorem send_eq_of_fatal (h : callsSendToLog d = true) (hfatal : isFatal flags d = true) :
    send flags d = beforeUnlock flags d ++ .unlock :: (waitForSinks flags d false ++ [.stackTrace]) := by
  rw [send_eq_of_calls h, sendToLog, if_pos hfatal, beforeUnlock]
  simp only [List.append_assoc]

theorem part_send (h : ¬ (callsSendToLog d = true ∧ isFatal flags d = true)) : Every (Part d) (send flags d) := by
  by_cases hcalls : callsSendToLog d = true
  · rw [send_eq_of_calls hcalls, sendToLog, if_neg (fun hfatal => h ⟨hcalls, hfatal⟩), List.append_nil]
    exact part_beforeLog.append part_sendToDestinations
  · unfold callsSendToLog at hcalls
    unfold send
    cases hmethod : d.sendMethod <;> rw [hmethod] at hcalls
    case sendToSink => exact part_sendToSink
    case saveOrSendToLog =>
      have hpointer : d.pointer = true := by simpa using hcalls
      dsimp only
      rw [saveOrSendToLog, if_pos hpointer]
      exact every_singleton (.body rfl)
    all_goals exact absurd rfl hcalls

/-- Every event of a method is about the right part of the text. -/
theorem part_or_unlock : Every (fun e => Part d e ∨ e = .unlock) (send flags d) := by
  by_cases h : callsSendToLog d = true ∧ isFatal flags d = true
  · rw [send_eq_of_fatal h.1 h.2]
    have hrest : Every (Part d) (waitForSinks flags d false ++ [.stackTrace]) :=
      part_waitForSinks.append (every_singleton .stackTrace)
    exact (part_beforeUnlock.mono fun _ => Or.inl).append ((hrest.mono fun _ => Or.inl).cons (Or.inr rfl))
  · exact (part_send h).mono fun _ => Or.inl

end

/-! ### Flush -/

/-- The place before the end of the text. -/
def lastPlace (d : LogMessageData) : Nat := sizeSub d.buf.pcount 1

/-- Do we need to add a \n to the end of this message? -/
def appendNewline (d : LogMessageData) : Bool := d.buf.text (lastPlace d) != '\n'

def setText (text : Nat → Char) (d : LogMessageData) : LogMessageData :=
  { d with buf := ⟨text, d.buf.pcount, d.buf.room⟩ }

/-- The places that are read and written before the message is sent. -/
def editAccesses (d : LogMessageData) : List Event :=
  .access (lastPlace d) ::
    if appendNewline d then [.access d.buf.pcount, .access d.buf.pcount, .access (d.buf.pcount + 1)]
      else [.access d.buf.pcount]

/-- The data while the message is sent. -/
def edited (d : LogMessageData) : LogMessageData :=
  let numCharsToLog := if appendNewline d then d.buf.pcount + 1 else d.buf.pcount
  let text := if appendNewline d then setPlace d.buf.pcount '\n' d.buf.text else d.buf.text
  { setText (setPlace numCharsToLog '\x00' text) d with
    numCharsToLog := numCharsToLog
    numCharsToSyslog := sizeSub d.buf.pcount d.numPrefixChars }

/-- The data after the edit has been undone; `d` is from before. -/
def restored (d : LogMessageData) : LogMessageData :=
  if appendNewline d then
    { setText (setPlace d.buf.pcount (d.buf.text d.buf.pcount) (edited d).buf.text) (edited d) with
      numCharsToLog := d.buf.pcount }
  else edited d

/-- The place that is written to undo the edit. -/
def undoAccesses (d : LogMessageData) : List Event := if appendNewline d then [.access d.buf.pcount] else []

structure Flushed where
  data : LogMessageData
  events : List Event
  /-- An exception leaves `Flush`. -/
  thrown : Bool

/-- Whether there is something to do. -/
def isDue (flags : Flags) (d : LogMessageData) : Bool :=
  !(d.hasBeenFlushed || decide (d.severity.toInt < flags.minloglevel))

/-- What is done under the guard: what the method throws is swallowed. -/
def locked (flags : Flags) (throws : Event → Bool) (d : LogMessageData) : List Event :=
  .lock :: ((perform throws (send flags (edited d))).1 ++ [.count, .unlock])

def flush (flags : Flags) (throws : Event → Bool) (d : LogMessageData) : Flushed :=
  if isDue flags d then
    -- What the sinks throw here leaves `Flush`, and the edit is not undone.
    let waited := perform throws (waitForSinks flags (edited d) true)
    { data := if waited.2 then edited d else { restored d with hasBeenFlushed := true }
      events := editAccesses d ++ (locked flags throws d ++ (waited.1 ++ if waited.2 then [] else undoAccesses d))
      thrown := waited.2 }
  else ⟨d, [], false⟩

section
variable {flags : Flags} {throws : Event → Bool} {d : LogMessageData}

theorem isDue_iff : isDue flags d = true ↔ d.hasBeenFlushed = false ∧ flags.minloglevel ≤ d.severity.toInt := by
  rw [isDue, Bool.not_eq_true', Bool.or_eq_false_iff, decide_eq_false_iff_not, Int.not_lt]

theorem flush_of_not_due (h : isDue flags d = false) :
    flush flags throws d = ⟨d, [], false⟩ := by rw [flush, h, if_neg nofun]

theorem flush_thrown : (flush flags throws d).thrown = true ↔
    isDue flags d = true ∧ ∃ e ∈ waitForSinks flags (edited d) true, e.stops throws = true := by
  rw [← Run.upTo_stopped]
  cases hdue : isDue flags d with
  | false =>
    rw [flush_of_not_due hdue]
    exact ⟨nofun, fun h => nomatch h.1⟩
  | true =>
    rw [flush, if_pos hdue]
    exact ⟨fun h => ⟨rfl, h⟩, And.right⟩

end

/-! ### A plain setting

No prefix, no sinks, log files, and `exit_on_dfatal`. -/

def plainPrefixFlags : PrefixFlags where
  logPrefix := false
  logYearInPrefix := false
  customPrefixCallback := none
  logBacktraceAt := []
  stacktrace := []

def plainInfo (severity : Severity) : LogMessageInfo where
  severity := severity
  filename := "f".toList
  lineNumber := 1
  threadId := 1
  time := ⟨100, 0, 1, 0, 0, 0, 0⟩

def plainFlags : Flags where
  minloglevel := 0
  exitOnDfatal := true
  logtostderr := false
  logtostdout := false
  stderrthreshold := 4
  alsologtostderr := false
  emailLoggingSeverity := 4
  logemaillevel := 4
  initialized := true
  alreadyWarnedBeforeInitgoogle := false
  sinks := 0
  logDestinations := []

/-- A new message of `LOG` or `LOG_AT_LEVEL` with the text. -/
def plainMessage (severity : Severity) (text : Text) : LogMessageData :=
  stream text (init plainPrefixFlags (plainInfo severity) .sendToLog false false (.new fun _ => ' '))

end Glog.LogMessage
