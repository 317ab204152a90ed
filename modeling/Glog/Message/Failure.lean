import Glog.Message.Flush

/-! # What a fatal message ends with

A message object is constructed, filled, maybe flushed by hand, and destroyed. The destructor of `LogMessage` swallows
what `Flush` throws; that of `LogMessageFatal` calls `Fail` behind its `Flush`, and is followed by that of `LogMessage`. -/

namespace Glog.LogMessage
open LogFile

/-! ### Objects -/

/-- The constructors of `LogMessage`, without the place in the program. -/
inductive Constructor
  | counted (severity : Severity) (sendMethod : SendMethod)
  | checkFailed (result : Text)
  | plain
  | ofSeverity (severity : Severity)
  | toSink (severity : Severity) (isNull alsoSendToLog : Bool)
  | toOutvec (severity : Severity) (isNull : Bool)
  | toMessage (severity : Severity) (isNull : Bool)

namespace Constructor

def severity : Constructor → Severity
  | counted severity _ | ofSeverity severity | toSink severity _ _ | toOutvec severity _ | toMessage severity _ => severity
  | checkFailed _ => .fatal
  | plain => .info

def sendMethod : Constructor → SendMethod
  | counted _ sendMethod => sendMethod
  | checkFailed _ | plain | ofSeverity _ => .sendToLog
  | toSink _ _ alsoSendToLog => if alsoSendToLog then .sendToSinkAndLog else .sendToSink
  | toOutvec _ _ => .saveOrSendToLog
  | toMessage _ _ => .writeToStringAndLog

def pointer : Constructor → Bool
  | toSink _ isNull _ | toOutvec _ isNull | toMessage _ isNull => !isNull
  | counted _ _ | checkFailed _ | plain | ofSeverity _ => false

/-- What the constructor streams. -/
def text : Constructor → Text
  | checkFailed result => "Check failed: ".toList ++ result ++ [' ']
  | _ => []

end Constructor

inductive MessageObject
  | logMessage (constructor : Constructor)
  /-- With a `CheckOpString` or without. -/
  | logMessageFatal (result : Option Text)
  | errnoLogMessage (severity : Severity) (sendMethod : SendMethod) (preservedErrno : Int) (strError : Text)

/-- How the part that is a `LogMessage` is constructed. -/
def MessageObject.constructor : MessageObject → Constructor
  | logMessage constructor => constructor
  | logMessageFatal none => .ofSeverity .fatal
  | logMessageFatal (some result) => .checkFailed result
  | errnoLogMessage severity sendMethod _ _ => .counted severity sendMethod

def MessageObject.construct (o : MessageObject) (flags : PrefixFlags) (info : LogMessageInfo) (firstFatal : Bool)
    (buf : LogStreamBuf) :
    LogMessageData :=
  stream o.constructor.text (init flags { info with severity := o.constructor.severity } o.constructor.sendMethod
    o.constructor.pointer firstFatal buf)

/-- The statements that make a fatal message, with the object that their macro makes; those that test something
    are taken where the test fails. -/
inductive FatalStatement
  | log
  | check
  | checkOp (result : Text)
  | plog (errno : Int) (strError : Text)
  | pcheck (errno : Int) (strError : Text)
  | checkErr (errno : Int) (strError : Text)
  | syslog
  | logString (isNull : Bool)
  | logToString (isNull : Bool)
  | logToSink (isNull : Bool)
  | logToSinkButNotToLogfile (isNull : Bool)
  | logAtLevel
  /-- `LOG(DFATAL)` in debug mode. -/
  | dfatal

def FatalStatement.object : FatalStatement → MessageObject
  | log | check => .logMessageFatal none
  | checkOp result => .logMessageFatal (some result)
  | plog errno strError | pcheck errno strError | checkErr errno strError =>
    .errnoLogMessage .fatal .sendToLog errno strError
  | syslog => .logMessage (.counted .fatal .sendToSyslogAndLog)
  | logString isNull => .logMessage (.toOutvec .fatal isNull)
  | logToString isNull => .logMessage (.toMessage .fatal isNull)
  | logToSink isNull => .logMessage (.toSink .fatal isNull true)
  | logToSinkButNotToLogfile isNull => .logMessage (.toSink .fatal isNull false)
  | logAtLevel | dfatal => .logMessage (.ofSeverity .fatal)

/-! ### The life of an object -/

inductive Occurrence
  | event (e : Event)
  /-- The destructor reports an exception. -/
  | caught
  /-- `Fail` calls `g_logging_fail_func`. -/
  | fail

/-- `~LogMessage`. -/
def destroyLogMessage (flags : Flags) (throws : Event → Bool) (d : LogMessageData) : List Occurrence :=
  (flush flags throws d).events.map .event ++ if (flush flags throws d).thrown then [.caught] else []

/-- The destructors; in that of `LogMessageFatal` what is thrown, by `Flush` or by `Fail`, goes on to the caller
    when the part that is a `LogMessage` has been destroyed. -/
def MessageObject.destroy (flags : Flags) (throws throwsAgain : Event → Bool) (d : LogMessageData) :
    MessageObject → List Occurrence
  | logMessage _ => destroyLogMessage flags throws d
  | errnoLogMessage _ _ preservedErrno strError =>
    destroyLogMessage flags throws
      (stream (": ".toList ++ strError ++ " [".toList ++ decimal preservedErrno ++ "]".toList) d)
  | logMessageFatal _ =>
    let flushed := flush flags throws d
    flushed.events.map .event ++ (if flushed.thrown then [] else [.fail]) ++
      destroyLogMessage flags throwsAgain flushed.data

/-- What is done with an object before it is destroyed. -/
inductive Use
  | insert (l : Text)
  | flush (flags : Flags) (throws : Event → Bool)

structure Life where
  data : LogMessageData
  past : List Occurrence

def Life.use (life : Life) : Use → Life
  | .insert l => { life with data := stream l life.data }
  | .flush flags throws =>
    ⟨(LogMessage.flush flags throws life.data).data,
      life.past ++ (LogMessage.flush flags throws life.data).events.map .event⟩

/-! ### What `Flush` leaves -/

abbrev Kind := Severity × SendMethod × Bool

section
variable {flags : Flags} {throws : Event → Bool} {d : LogMessageData}

/-- What is given at the construction, and remains. -/
def LogMessageData.kind (d : LogMessageData) : Kind := (d.severity, d.sendMethod, d.pointer)

theorem kind_restored : (restored d).kind = d.kind := by
  unfold restored
  split <;> rfl

theorem flush_kind : (flush flags throws d).data.kind = d.kind := by
  unfold flush
  split
  · dsimp only
    split
    · rfl
    · exact kind_restored
  · rfl

/-- What is not flushed and not below the level is sent by `Flush`. -/
theorem locked_in_events (h : isDue flags d = true) : locked flags throws d <:+: (flush flags throws d).events := by
  rw [flush, if_pos h]
  exact ⟨editAccesses d, _, List.append_assoc _ _ _⟩

end

/-! ### Sending and failing -/

/-- A message of the kind has been sent. -/
def Dispatched (κ : Kind) (l : List Occurrence) : Prop :=
  ∃ flags throws d, d.kind = κ ∧ (locked flags throws d).map .event <:+: l

/-- The message is sent, and then the failure function is called. -/
def SendsThenFails (κ : Kind) (l : List Occurrence) : Prop :=
  ∃ past rest, l = past ++ .fail :: rest ∧ Dispatched κ past

section
variable {κ : Kind} {flags : Flags} {throws throwsAgain : Event → Bool} {d : LogMessageData}

theorem Dispatched.append {l : List Occurrence} (h : Dispatched κ l) (l' : List Occurrence) : Dispatched κ (l ++ l') := by
  obtain ⟨flags, throws, d, hkind, hinside⟩ := h
  exact ⟨flags, throws, d, hkind, hinside.trans (List.prefix_append l l').isInfix⟩

theorem dispatched_flush (hdue : isDue flags d = true) (past : List Occurrence) :
    Dispatched d.kind (past ++ (flush flags throws d).events.map .event) := by
  refine ⟨flags, throws, d, rfl, ?_⟩
  exact ((locked_in_events hdue).map _).trans (List.suffix_append past _).isInfix

theorem fail_not_mem_events (l : List Event) : .fail ∉ l.map Occurrence.event := by
  intro h
  obtain ⟨e, -, he⟩ := List.mem_map.mp h
  cases he

theorem fail_not_mem_destroyLogMessage : .fail ∉ destroyLogMessage flags throws d := by
  intro h
  rcases List.mem_append.mp h with hevents | hcaught
  · exact fail_not_mem_events _ hevents
  · split at hcaught
    · cases List.mem_singleton.mp hcaught
    · cases hcaught

/-- What holds of an object before it is destroyed. -/
structure Alive (κ : Kind) (life : Life) : Prop where
  ofKind : life.data.kind = κ
  flushed : life.data.hasBeenFlushed = true → Dispatched κ life.past
  running : .fail ∉ life.past

theorem Alive.use {life : Life} (h : Alive κ life) (u : Use) : Alive κ (life.use u) := by
  cases u with
  | insert l => exact ⟨h.ofKind, h.flushed, h.running⟩
  | flush flags throws =>
    have hrunning : .fail ∉ life.past ++ (flush flags throws life.data).events.map .event := fun hmem =>
      (List.mem_append.mp hmem).elim h.running (fail_not_mem_events _)
    cases hdue : isDue flags life.data with
    | true => exact ⟨flush_kind.trans h.ofKind, fun _ => h.ofKind ▸ dispatched_flush hdue life.past, hrunning⟩
    | false =>
      refine ⟨flush_kind.trans h.ofKind, fun hflushed => (h.flushed ?_).append _, hrunning⟩
      rwa [Life.use, flush_of_not_due hdue] at hflushed

theorem Alive.uses {life : Life} (h : Alive κ life) (uses : List Use) : Alive κ (uses.foldl Life.use life) := by
  induction uses generalizing life with
  | nil => exact h
  | cons u uses ih => exact ih (h.use u)

/-- An object that has been constructed and used. -/
def MessageObject.live (o : MessageObject) (flags : PrefixFlags) (info : LogMessageInfo) (firstFatal : Bool)
    (buf : LogStreamBuf)
    (uses : List Use) : Life := uses.foldl Life.use ⟨o.construct flags info firstFatal buf, []⟩

def MessageObject.kind (o : MessageObject) : Kind :=
  (o.constructor.severity, o.constructor.sendMethod, o.constructor.pointer)

theorem alive_live {o : MessageObject} {prefixFlags : PrefixFlags} {info : LogMessageInfo} {firstFatal : Bool}
    {buf : LogStreamBuf} (uses : List Use) : Alive o.kind (o.live prefixFlags info firstFatal buf uses) := by
  have hstart : Alive o.kind ⟨o.construct prefixFlags info firstFatal buf, []⟩ :=
    ⟨rfl, fun h => absurd h Bool.false_ne_true, List.not_mem_nil⟩
  exact hstart.uses uses

/-- All that the object does. -/
def trace (o : MessageObject) (flags : Flags) (throws throwsAgain : Event → Bool) (life : Life) : List Occurrence :=
  life.past ++ o.destroy flags throws throwsAgain life.data

theorem flush_returns (hlevel : flags.minloglevel ≤ d.severity.toInt) : (flush flags throws d).thrown = false ↔
    d.hasBeenFlushed = true ∨ ∀ e ∈ waitForSinks flags (edited d) true, e.stops throws = false := by
  rw [← Bool.not_eq_true, flush_thrown, isDue_iff]
  constructor
  · intro h
    cases hflushed : d.hasBeenFlushed with
    | true => exact Or.inl rfl
    | false => exact Or.inr fun e he => Bool.eq_false_iff.mpr fun hstops => h ⟨⟨hflushed, hlevel⟩, e, he, hstops⟩
  · rintro (hflushed | hreturns) ⟨⟨hfresh, -⟩, e, he, hstops⟩
    · rw [hflushed] at hfresh
      cases hfresh
    · rw [hreturns e he] at hstops
      cases hstops

/-- Only the destructor of `LogMessageFatal` fails, if no sink throws while it is waited for. -/
theorem sendsThenFails_iff {o : MessageObject} {prefixFlags : PrefixFlags} {info : LogMessageInfo} {firstFatal : Bool}
    {buf : LogStreamBuf} {uses : List Use} (hfatal : o.constructor.severity = .fatal)
    (hlevel : flags.minloglevel ≤ Severity.fatal.toInt) :
    SendsThenFails o.kind (trace o flags throws throwsAgain (o.live prefixFlags info firstFatal buf uses)) ↔
      (∃ result, o = .logMessageFatal result) ∧
        ((o.live prefixFlags info firstFatal buf uses).data.hasBeenFlushed = true ∨
          ∀ e ∈ waitForSinks flags (edited (o.live prefixFlags info firstFatal buf uses).data) true,
            e.stops throws = false) := by
  have halive := @alive_live o prefixFlags info firstFatal buf uses
  generalize o.live prefixFlags info firstFatal buf uses = life at halive ⊢
  have hlevel' : flags.minloglevel ≤ life.data.severity.toInt := by
    have hseverity : life.data.severity = o.constructor.severity := congrArg Prod.fst halive.ofKind
    rw [hseverity, hfatal]
    exact hlevel
  constructor
  · rintro ⟨past, rest, heq, -⟩
    have hmem : .fail ∈ trace o flags throws throwsAgain life := heq ▸ List.mem_append_right past List.mem_cons_self
    rcases List.mem_append.mp hmem with hpast | hdestroy
    · exact absurd hpast halive.running
    · cases o with
      | logMessage => exact absurd hdestroy fail_not_mem_destroyLogMessage
      | errnoLogMessage => exact absurd hdestroy fail_not_mem_destroyLogMessage
      | logMessageFatal result =>
        refine ⟨⟨result, rfl⟩, ?_⟩
        rcases List.mem_append.mp hdestroy with hbefore | hafter
        · rcases List.mem_append.mp hbefore with hevents | hfail
          · exact absurd hevents (fail_not_mem_events _)
          · split at hfail
            · cases hfail
            · rename_i hnot
              exact (flush_returns hlevel').mp (Bool.eq_false_iff.mpr hnot)
        · exact absurd hafter fail_not_mem_destroyLogMessage
  · rintro ⟨⟨result, rfl⟩, hreturns⟩
    have hnot := (flush_returns hlevel').mpr hreturns
    refine ⟨life.past ++ (flush flags throws life.data).events.map .event, destroyLogMessage flags throwsAgain
      (flush flags throws life.data).data, ?_, ?_⟩
    · rw [trace, MessageObject.destroy]
      rw [hnot, if_neg nofun]
      simp only [List.append_assoc, List.singleton_append]
    · cases hdue : isDue flags life.data with
      | true => exact halive.ofKind ▸ dispatched_flush hdue life.past
      | false =>
        refine (halive.flushed ?_).append _
        exact Bool.not_eq_false _ |>.mp fun hfresh => absurd (isDue_iff.mpr ⟨hfresh, hlevel'⟩) (Bool.eq_false_iff.mp hdue)

/-- `LOG(FATAL)` without sinks. -/
theorem sendsThenFails_log : SendsThenFails FatalStatement.log.object.kind
    (trace FatalStatement.log.object plainFlags (fun _ => false) (fun _ => false)
      (FatalStatement.log.object.live plainPrefixFlags (plainInfo .info) true (.new fun _ => ' ') [.insert ['a']])) :=
  (sendsThenFails_iff rfl (by decide)).mpr ⟨⟨none, rfl⟩, Or.inr fun e he => nomatch he⟩

/-- `PLOG(FATAL)` lets the program go on. -/
theorem not_sendsThenFails_plog : ¬ ∀ (o : MessageObject) (prefixFlags : PrefixFlags) (info : LogMessageInfo)
    (firstFatal : Bool)
    (buf : LogStreamBuf) (uses : List Use) (flags : Flags) (throws throwsAgain : Event → Bool),
      o.constructor.severity = .fatal →
      flags.exitOnDfatal = true → flags.minloglevel ≤ Severity.fatal.toInt →
        SendsThenFails o.kind (trace o flags throws throwsAgain (o.live prefixFlags info firstFatal buf uses)) :=
          fun h => by
  obtain ⟨past, rest, heq, -⟩ :=
    h (FatalStatement.plog 2 "e".toList).object plainPrefixFlags (plainInfo .info) true (.new fun _ => ' ') []
    plainFlags (fun _ => false) (fun _ => false) rfl rfl (by decide)
  exact absurd (heq ▸ List.mem_append_right past List.mem_cons_self) fail_not_mem_destroyLogMessage

end

end Glog.LogMessage
