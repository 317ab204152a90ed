import Glog.Message.Failure
import Glog.Message.StrError

/-! # errno

`Init` saves errno, and `Flush` restores it at its end. What the library calls in between may set it; insertions into the
stream, destructors and `delete` do not. -/

namespace Glog.LogMessage
open Ambient LogFile

/-! ### The calls -/

/-- Whether something is called that may set errno. -/
def Event.maySet : Event → Bool
  | .access _ | .count => false
  | _ => true

inductive InitCall
  | wallTimeNow
  | logMessageTime
  | getTID
  | customPrefixCallback
  | snprintf
  | dumpStackTraceToString

/-- What `Init` calls when it has saved errno. -/
def initCalls (flags : PrefixFlags) (info : LogMessageInfo) : List InitCall :=
  [.wallTimeNow, .logMessageTime] ++
    (if flags.logPrefix ∧ info.lineNumber ≠ kNoLogPrefix then
      .getTID :: if flags.customPrefixCallback.isSome then [.customPrefixCallback] else []
    else []) ++
    if flags.logBacktraceAt ≠ [] then
      .snprintf :: if backtrace flags info ≠ [] then [.dumpStackTraceToString] else []
    else []

/-! ### A logging statement -/

/-- The objects that may log below FATAL. -/
inductive Logging
  | logMessage (constructor : Constructor)
  | errnoLogMessage (severity : Severity) (sendMethod : SendMethod) (strerrorR : Int → Nat → Strerror)

/-- How the part that is a `LogMessage` is constructed. -/
def Logging.constructor : Logging → Constructor
  | logMessage constructor => constructor
  | errnoLogMessage severity sendMethod _ => .counted severity sendMethod

/-- What decides how a statement runs; `flags` and `throws` are those of the destructor. -/
structure Statement where
  logging : Logging
  below : logging.constructor.severity ≠ .fatal
  prefixFlags : PrefixFlags
  info : LogMessageInfo
  threadDataAvailable : Bool
  /-- What `new` sets errno to, if it does. -/
  allocation : Option Int
  text : Nat → Char
  uses : List Use
  flags : Flags
  throws : Event → Bool

/-- A message, and errno. -/
structure Running where
  data : LogMessageData
  preservedErrno : Int
  errno : Cell Int

section
variable (sets : Nat → Option Int)

namespace Running

/-- `Flush`, and whether an exception leaves it. -/
def flush (flags : Flags) (throws : Event → Bool) (m : Running) : Running × Bool :=
  let flushed := LogMessage.flush flags throws m.data
  let errno := m.errno.after sets (flushed.events.countP Event.maySet)
  -- the early return, and an exception, do not get to the end
  let restores := isDue flags m.data ∧ flushed.thrown = false ∧ m.preservedErrno ≠ 0
  ({ m with data := flushed.data, errno := if restores then errno.set m.preservedErrno else errno }, flushed.thrown)

def use (m : Running) : Use → Running
  | .insert l => { m with data := stream l m.data }
  | .flush flags throws => (m.flush sets flags throws).1

/-- `~LogMessage`, which reports an exception. -/
def destroy (flags : Flags) (throws : Event → Bool) (m : Running) : Running :=
  let (m, thrown) := m.flush sets flags throws
  if thrown then { m with errno := m.errno.call sets } else m

end Running

namespace Statement

/-- What `Init` saves: the data on the heap have been allocated by then. -/
def preservedErrno (s : Statement) (errno : Int) : Int := if s.threadDataAvailable then errno else s.allocation.getD errno

def init (s : Statement) (errno : Int) : Running where
  data := (MessageObject.logMessage s.logging.constructor).construct s.prefixFlags s.info false (.new s.text)
  preservedErrno := s.preservedErrno errno
  errno := (⟨s.preservedErrno errno, 0⟩ : Cell Int).after sets (initCalls s.prefixFlags s.info).length

/-- `~ErrnoLogMessage`, before `~LogMessage`. -/
def destroyErrno (s : Statement) (m : Running) : Running :=
  match s.logging with
  | .logMessage _ => m
  | .errnoLogMessage _ _ strerrorR =>
    let (text, errno) := strError strerrorR sets m.preservedErrno m.errno
    { m with
      data := stream (": ".toList ++ text ++ " [".toList ++ decimal m.preservedErrno ++ "]".toList) m.data
      errno := errno }

def run (s : Statement) (errno : Int) : Running :=
  (s.destroyErrno sets (s.uses.foldl (Running.use sets) (s.init sets errno))).destroy sets s.flags s.throws

end Statement

end

/-- Whatever the calls set errno to, it is at the end what it has been at the beginning. -/
def Statement.KeepsErrno (s : Statement) (errno : Int) : Prop := ∀ sets, (s.run sets errno).errno.value = errno

/-- The data are allocated, if at all, without a change of errno. -/
def Statement.AllocatesQuietly (s : Statement) (errno : Int) : Prop :=
  s.threadDataAvailable = true ∨ ∀ v ∈ s.allocation, v = errno

/-- A call of `Flush` that is not suppressed, and in which no sink throws while it is waited for. -/
structure Finishes (constructor : Constructor) (flags : Flags) (throws : Event → Bool) : Prop where
  level : flags.minloglevel ≤ constructor.severity.toInt
  registered : ∀ i < flags.sinks, throws (.wait true i) = false
  own : (constructor.sendMethod = .sendToSink ∨ constructor.sendMethod = .sendToSinkAndLog) ∧ constructor.pointer = true →
    throws (.waitOwn true) = false

/-- A call of `Flush` by hand gets to the end. -/
def Statement.FinishesByHand (s : Statement) : Prop :=
  ∃ flags throws, .flush flags throws ∈ s.uses ∧ Finishes s.logging.constructor flags throws

/-- A call of `Flush` gets to the end, and errno is not set behind it: `~ErrnoLogMessage` calls `StrError` before the
    destructor flushes, and that keeps errno where `strerror_r` gives a text. -/
def Statement.Restores (s : Statement) (errno : Int) : Prop :=
  match s.logging with
  | .logMessage _ => s.FinishesByHand ∨ Finishes s.logging.constructor s.flags s.throws
  | .errnoLogMessage _ _ strerrorR =>
    s.FinishesByHand ∧ (strerrorR errno 100).Succeeds 100 ∨
      ¬ s.FinishesByHand ∧ Finishes s.logging.constructor s.flags s.throws

section
variable {sets : Nat → Option Int} {constructor : Constructor} {flags : Flags} {throws : Event → Bool} {m : Running}
  {d : LogMessageData} {s : Statement} {errno : Int}

/-! ### One flush -/

/-- What a message is, and what errno is, before and after it has been flushed. -/
structure Tracks (sets : Nat → Option Int) (constructor : Constructor) (m : Running) : Prop where
  kind : m.data.kind = (constructor.severity, constructor.sendMethod, constructor.pointer)
  kept : m.data.hasBeenFlushed = true → m.preservedErrno ≠ 0 → m.errno.value = m.preservedErrno
  lost : ∀ v, (∀ k, sets k = some v) → m.data.hasBeenFlushed = false ∨ m.preservedErrno = 0 → m.errno.value = v

theorem kind_edited : (edited d).kind = d.kind := rfl

theorem waits_quiet (hkind : d.kind = (constructor.severity, constructor.sendMethod, constructor.pointer)) :
    (∀ e ∈ waitForSinks flags (edited d) true, e.stops throws = false) ↔
      (∀ i < flags.sinks, throws (.wait true i) = false) ∧
      ((constructor.sendMethod = .sendToSink ∨ constructor.sendMethod = .sendToSinkAndLog) ∧ constructor.pointer = true →
        throws (.waitOwn true) = false) := by
  obtain ⟨-, hrest⟩ := Prod.mk.inj (kind_edited.trans hkind)
  obtain ⟨hmethod, hpointer⟩ := Prod.mk.inj hrest
  rw [waitForSinks, hmethod, hpointer, List.forall_mem_append, List.forall_mem_map]
  simp only [List.mem_reverse, List.mem_range]
  refine and_congr Iff.rfl ?_
  split
  · rename_i hown
    rw [List.forall_mem_singleton]
    exact ⟨fun h _ => h, fun h => h hown⟩
  · rename_i hown
    exact ⟨fun _ h => absurd h hown, fun _ e he => absurd he List.not_mem_nil⟩

/-- `Flush` gets to its end exactly if it finishes and the message has not been flushed. -/
theorem flush_ends_iff (hkind : d.kind = (constructor.severity, constructor.sendMethod, constructor.pointer)) :
    isDue flags d = true ∧ (LogMessage.flush flags throws d).thrown = false ↔
      d.hasBeenFlushed = false ∧ Finishes constructor flags throws := by
  have hseverity : d.severity = constructor.severity := congrArg Prod.fst hkind
  rw [← Bool.not_eq_true, flush_thrown, isDue_iff, hseverity]
  constructor
  · rintro ⟨⟨hfresh, hlevel⟩, hnot⟩
    have hquiet : ∀ e ∈ waitForSinks flags (edited d) true, e.stops throws = false := fun e he =>
      Bool.eq_false_iff.mpr fun hstops => hnot ⟨⟨hfresh, hlevel⟩, e, he, hstops⟩
    obtain ⟨hregistered, hown⟩ := (waits_quiet hkind).mp hquiet
    exact ⟨hfresh, hlevel, hregistered, hown⟩
  · rintro ⟨hfresh, hlevel, hregistered, hown⟩
    refine ⟨⟨hfresh, hlevel⟩, ?_⟩
    rintro ⟨-, e, he, hstops⟩
    have hquiet := (waits_quiet hkind).mpr ⟨hregistered, hown⟩ e he
    rw [hquiet] at hstops
    cases hstops

theorem hasBeenFlushed_of_ends (h : isDue flags d = true ∧ (LogMessage.flush flags throws d).thrown = false) :
    (LogMessage.flush flags throws d).data.hasBeenFlushed = true := by
  obtain ⟨hdue, hreturns⟩ := h
  rw [LogMessage.flush, if_pos hdue] at hreturns ⊢
  dsimp only at hreturns ⊢
  rw [hreturns, if_neg Bool.false_ne_true]

theorem hasBeenFlushed_of_not_ends (h : ¬ (isDue flags d = true ∧ (LogMessage.flush flags throws d).thrown = false)) :
    (LogMessage.flush flags throws d).data.hasBeenFlushed = d.hasBeenFlushed := by
  cases hdue : isDue flags d with
  | false => rw [flush_of_not_due hdue]
  | true =>
    have hthrown : (LogMessage.flush flags throws d).thrown = true :=
      (Bool.not_eq_false _).mp fun hreturns => h ⟨hdue, hreturns⟩
    rw [LogMessage.flush, if_pos hdue] at hthrown ⊢
    dsimp only at hthrown ⊢
    rw [hthrown, if_pos rfl]
    rfl

/-- A flush that gets to its end restores errno. -/
theorem flush_of_ends (h : isDue flags m.data = true ∧ (LogMessage.flush flags throws m.data).thrown = false)
    (hset : m.preservedErrno ≠ 0) : (m.flush sets flags throws).1.errno.value = m.preservedErrno := by
  rw [Running.flush]
  dsimp only
  rw [if_pos ⟨h.1, h.2, hset⟩]
  rfl

/-- Otherwise errno is what the calls have set it to. -/
theorem flush_of_not_restored
    (h : ¬ (isDue flags m.data = true ∧ (LogMessage.flush flags throws m.data).thrown = false) ∨ m.preservedErrno = 0) :
    (m.flush sets flags throws).1.errno =
      m.errno.after sets ((LogMessage.flush flags throws m.data).events.countP Event.maySet) := by
  rw [Running.flush]
  dsimp only
  refine if_neg ?_
  rintro ⟨hdue, hreturns, hset⟩
  rcases h with hnot | hzero
  · exact hnot ⟨hdue, hreturns⟩
  · exact hset hzero

theorem flush_of_flushed (h : m.data.hasBeenFlushed = true) : (m.flush sets flags throws).1 = m := by
  have hdue : isDue flags m.data = false := by
    rw [isDue, h]
    rfl
  rw [Running.flush, hdue, flush_of_not_due hdue]
  dsimp only
  rw [if_neg fun hends => Bool.false_ne_true hends.1]
  rfl

theorem tracks_flush (h : Tracks sets constructor m) : Tracks sets constructor (m.flush sets flags throws).1 ∧
    (m.flush sets flags throws).1.preservedErrno = m.preservedErrno ∧
    ((m.flush sets flags throws).1.data.hasBeenFlushed = true ↔ m.data.hasBeenFlushed = true ∨
      Finishes constructor flags throws) := by
  have hends := @flush_ends_iff constructor flags throws m.data h.kind
  cases hflushed : m.data.hasBeenFlushed with
  | true =>
    rw [flush_of_flushed hflushed]
    exact ⟨h, rfl, iff_of_true hflushed (Or.inl rfl)⟩
  | false =>
    have hlost : ∀ v, (∀ k, sets k = some v) → m.errno.value = v := fun v hv => h.lost v hv (Or.inl hflushed)
    by_cases hfinishes : Finishes constructor flags throws
    · have hall := hends.mpr ⟨hflushed, hfinishes⟩
      have hdone : (m.flush sets flags throws).1.data.hasBeenFlushed = true := hasBeenFlushed_of_ends hall
      refine ⟨⟨flush_kind.trans h.kind, fun _ hset => flush_of_ends hall hset, ?_⟩, rfl,
        iff_of_true hdone (Or.inr hfinishes)⟩
      rintro v hv (hfresh | hzero)
      · rw [hdone] at hfresh
        cases hfresh
      · have hzero' : m.preservedErrno = 0 := hzero
        rw [flush_of_not_restored (Or.inr hzero')]
        exact value_after hv (hlost v hv)
    · have hnot : ¬ (isDue flags m.data = true ∧ (LogMessage.flush flags throws m.data).thrown = false) := fun hall =>
        hfinishes (hends.mp hall).2
      have hfresh : (m.flush sets flags throws).1.data.hasBeenFlushed = false :=
        (hasBeenFlushed_of_not_ends hnot).trans hflushed
      refine ⟨⟨flush_kind.trans h.kind, fun hdone => ?_, fun v hv _ => ?_⟩, rfl, ?_⟩
      · rw [hfresh] at hdone
        cases hdone
      · rw [flush_of_not_restored (Or.inl hnot)]
        exact value_after hv (hlost v hv)
      · rw [hfresh]
        exact iff_of_false Bool.false_ne_true fun hor => hor.elim Bool.false_ne_true hfinishes

/-! ### A whole statement -/

theorem tracks_use (h : Tracks sets constructor m) (u : Use) : Tracks sets constructor (m.use sets u) ∧
    (m.use sets u).preservedErrno = m.preservedErrno ∧
    ((m.use sets u).data.hasBeenFlushed = true ↔
      m.data.hasBeenFlushed = true ∨ ∃ flags throws, u = .flush flags throws ∧ Finishes constructor flags throws) := by
  cases u with
  | insert l =>
    refine ⟨⟨h.kind, h.kept, h.lost⟩, rfl, Or.inl, ?_⟩
    rintro (hflushed | ⟨flags, throws, heq, -⟩)
    · exact hflushed
    · cases heq
  | flush flags throws =>
    obtain ⟨htracks, hpreserved, hflushed⟩ := @tracks_flush sets constructor flags throws m h
    refine ⟨htracks, hpreserved, hflushed.trans (or_congr Iff.rfl ⟨fun hfinishes => ⟨flags, throws, rfl, hfinishes⟩, ?_⟩)⟩
    rintro ⟨flags', throws', heq, hfinishes⟩
    obtain ⟨rfl, rfl⟩ := Use.flush.inj heq
    exact hfinishes

theorem tracks_uses (h : Tracks sets constructor m) (uses : List Use) :
    Tracks sets constructor (uses.foldl (Running.use sets) m) ∧
    (uses.foldl (Running.use sets) m).preservedErrno = m.preservedErrno ∧
    ((uses.foldl (Running.use sets) m).data.hasBeenFlushed = true ↔
      m.data.hasBeenFlushed = true ∨ ∃ flags throws, .flush flags throws ∈ uses ∧ Finishes constructor flags throws) := by
  induction uses generalizing m with
  | nil => exact ⟨h, rfl, Or.inl, fun hor => hor.elim id fun ⟨_, _, hmem, _⟩ => absurd hmem List.not_mem_nil⟩
  | cons u uses ih =>
    obtain ⟨htracks, hpreserved, hflushed⟩ := tracks_use h u
    obtain ⟨htracks', hpreserved', hflushed'⟩ := ih htracks
    refine ⟨htracks', hpreserved'.trans hpreserved, ?_⟩
    rw [List.foldl_cons, hflushed', hflushed]
    constructor
    · rintro ((hdone | ⟨flags, throws, rfl, hfinishes⟩) | ⟨flags, throws, hmem, hfinishes⟩)
      · exact Or.inl hdone
      · exact Or.inr ⟨flags, throws, List.mem_cons_self, hfinishes⟩
      · exact Or.inr ⟨flags, throws, List.mem_cons_of_mem u hmem, hfinishes⟩
    · rintro (hdone | ⟨flags, throws, hmem, hfinishes⟩)
      · exact Or.inl (Or.inl hdone)
      · rcases List.mem_cons.mp hmem with rfl | hmem
        · exact Or.inl (Or.inr ⟨flags, throws, rfl, hfinishes⟩)
        · exact Or.inr ⟨flags, throws, hmem, hfinishes⟩

theorem tracks_init : Tracks sets s.logging.constructor (s.init sets errno) := by
  have hcalls : 0 < (initCalls s.prefixFlags s.info).length := by
    rw [initCalls, List.append_assoc, List.length_append]
    exact Nat.add_pos_left (by decide) _
  refine ⟨?_, fun hflushed => absurd hflushed Bool.false_ne_true, fun v hv _ => value_after_of_pos hv hcalls⟩
  cases hlogging : s.logging <;> rw [Statement.init, hlogging] <;> rfl

/-- Where it fails `StrError` leaves errno to what it calls. -/
theorem value_strError {strerrorR : Int → Nat → Strerror} {err : Int} {errno : Cell Int}
    (h : ¬ (strerrorR err 100).Succeeds 100)
    {v : Int} (hv : ∀ k, sets k = some v) : (strError strerrorR sets err errno).2.value = v := by
  rw [strError_eq, if_neg h]
  exact value_call hv

theorem value_strError_of_eq {strerrorR : Int → Nat → Strerror} {err : Int} {errno : Cell Int} {v : Int}
    (hv : ∀ k, sets k = some v) (hvalue : errno.value = v) : (strError strerrorR sets err errno).2.value = v := by
  by_cases h : (strerrorR err 100).Succeeds 100
  · rw [strError_eq, if_pos h]
    exact hvalue
  · exact value_strError h hv

/-- What is streamed by `~ErrnoLogMessage` does not flush the message. -/
theorem tracks_destroyErrno (h : Tracks sets constructor m) (hfresh : m.data.hasBeenFlushed = false) :
    Tracks sets constructor (s.destroyErrno sets m) ∧ (s.destroyErrno sets m).preservedErrno = m.preservedErrno ∧
      (s.destroyErrno sets m).data.hasBeenFlushed = false := by
  cases hlogging : s.logging with
  | logMessage =>
    rw [Statement.destroyErrno, hlogging]
    exact ⟨h, rfl, hfresh⟩
  | errnoLogMessage severity sendMethod strerrorR =>
    rw [Statement.destroyErrno, hlogging]
    exact ⟨⟨h.kind, fun hflushed => absurd (hfresh.symm.trans hflushed) Bool.false_ne_true,
      fun v hv _ => value_strError_of_eq hv (h.lost v hv (Or.inl hfresh))⟩, rfl, hfresh⟩

theorem tracks_destroy (h : Tracks sets constructor m) : Tracks sets constructor (m.destroy sets flags throws) ∧
    (m.destroy sets flags throws).preservedErrno = m.preservedErrno ∧
    ((m.destroy sets flags throws).data.hasBeenFlushed = true ↔ m.data.hasBeenFlushed = true ∨
      Finishes constructor flags throws) := by
  obtain ⟨htracks, hpreserved, hflushed⟩ := @tracks_flush sets constructor flags throws m h
  cases hthrown : (m.flush sets flags throws).2 with
  | false =>
    rw [Running.destroy]
    dsimp only
    rw [hthrown, if_neg Bool.false_ne_true]
    exact ⟨htracks, hpreserved, hflushed⟩
  | true =>
    -- an exception leaves the message as one that has not been flushed
    have hthrown' : (LogMessage.flush flags throws m.data).thrown = true := hthrown
    have hfresh : (m.flush sets flags throws).1.data.hasBeenFlushed = false := by
      have hnot : ¬ (isDue flags m.data = true ∧ (LogMessage.flush flags throws m.data).thrown = false) := fun hends =>
        Bool.false_ne_true (hends.2.symm.trans hthrown')
      exact (hasBeenFlushed_of_not_ends hnot).trans (isDue_iff.mp (flush_thrown.mp hthrown').1).1
    rw [Running.destroy]
    dsimp only
    rw [hthrown, if_pos rfl]
    exact ⟨⟨htracks.kind, fun hdone => absurd (hfresh.symm.trans hdone) Bool.false_ne_true, fun v hv _ => value_call hv⟩,
      hpreserved, hflushed⟩

theorem destroy_of_flushed (h : m.data.hasBeenFlushed = true) : m.destroy sets flags throws = m := by
  have hthrown : (m.flush sets flags throws).2 = false := by
    have hdue : isDue flags m.data = false := by
      rw [isDue, h]
      rfl
    exact congrArg Flushed.thrown (flush_of_not_due hdue)
  rw [Running.destroy]
  dsimp only
  rw [hthrown, if_neg Bool.false_ne_true, flush_of_flushed h]

/-- The message before it is destroyed. -/
theorem tracks_used (sets : Nat → Option Int) (s : Statement) (errno : Int) :
    Tracks sets s.logging.constructor (s.uses.foldl (Running.use sets) (s.init sets errno)) ∧
      (s.uses.foldl (Running.use sets) (s.init sets errno)).preservedErrno = s.preservedErrno errno ∧
      ((s.uses.foldl (Running.use sets) (s.init sets errno)).data.hasBeenFlushed = true ↔ s.FinishesByHand) := by
  obtain ⟨htracks, hpreserved, hflushed⟩ := tracks_uses (@tracks_init sets s errno) s.uses
  refine ⟨htracks, hpreserved, hflushed.trans ?_⟩
  have hfresh : (s.init sets errno).data.hasBeenFlushed = false := by
    cases hlogging : s.logging <;> rw [Statement.init, hlogging] <;> rfl
  rw [hfresh]
  exact ⟨fun h => h.resolve_left Bool.false_ne_true, Or.inr⟩

theorem restores_logMessage {c : Constructor} (h : s.logging = .logMessage c) :
    s.Restores errno ↔ s.FinishesByHand ∨ Finishes s.logging.constructor s.flags s.throws := by
  rw [Statement.Restores, h]

theorem restores_errnoLogMessage {severity : Severity} {sendMethod : SendMethod} {strerrorR : Int → Nat → Strerror}
    (h : s.logging = .errnoLogMessage severity sendMethod strerrorR) :
    s.Restores errno ↔ s.FinishesByHand ∧ (strerrorR errno 100).Succeeds 100 ∨
      ¬ s.FinishesByHand ∧ Finishes s.logging.constructor s.flags s.throws := by
  rw [Statement.Restores, h]

/-- Where errno is restored, it is at the end what `Init` has saved. -/
theorem run_of_restores (h : s.Restores (s.preservedErrno errno)) (hset : s.preservedErrno errno ≠ 0) :
    (s.run sets errno).errno.value = s.preservedErrno errno := by
  obtain ⟨htracks, hpreserved, hflushed⟩ := tracks_used sets s errno
  rw [Statement.run]
  generalize s.uses.foldl (Running.use sets) (s.init sets errno) = m at htracks hpreserved hflushed ⊢
  rw [← hpreserved] at h hset ⊢
  cases hlogging : s.logging with
  | logMessage =>
    have hsame : s.destroyErrno sets m = m := by rw [Statement.destroyErrno, hlogging]
    obtain ⟨hlast, hpreserved', hdone⟩ := @tracks_destroy sets s.logging.constructor s.flags s.throws m htracks
    rw [restores_logMessage hlogging, ← hflushed, ← hdone] at h
    rw [hsame, ← hpreserved']
    exact hlast.kept h (hpreserved' ▸ hset)
  | errnoLogMessage severity sendMethod strerrorR =>
    rcases (restores_errnoLogMessage hlogging).mp h with ⟨hbyHand, hsucceeds⟩ | ⟨hbyHand, hfinishes⟩
    · -- The flush by hand has restored errno, `StrError` keeps it, and the destructor does not flush again.
      have hdone := hflushed.mpr hbyHand
      have hkept : s.destroyErrno sets m = { m with data := (s.destroyErrno sets m).data } := by
        rw [Statement.destroyErrno, hlogging]
        dsimp only
        rw [strError_eq, if_pos hsucceeds]
      have hflushed' : (s.destroyErrno sets m).data.hasBeenFlushed = true := by
        rw [Statement.destroyErrno, hlogging]
        exact hdone
      rw [destroy_of_flushed hflushed', hkept]
      exact htracks.kept hdone hset
    · have hfresh : m.data.hasBeenFlushed = false := Bool.eq_false_iff.mpr fun hdone => hbyHand (hflushed.mp hdone)
      obtain ⟨htracks', hpreserved', -⟩ := @tracks_destroyErrno sets s.logging.constructor m s htracks hfresh
      obtain ⟨hlast, hpreserved'', hdone⟩ := @tracks_destroy sets s.logging.constructor s.flags s.throws _ htracks'
      rw [← hpreserved', ← hpreserved''] at hset ⊢
      exact hlast.kept (hdone.mpr (Or.inr hfinishes)) hset

/-- Otherwise it is what the calls set it to, if they all set it to the same. -/
theorem run_of_not_restores (h : ¬ s.Restores (s.preservedErrno errno) ∨ s.preservedErrno errno = 0) {v : Int}
    (hv : ∀ k, sets k = some v) : (s.run sets errno).errno.value = v := by
  obtain ⟨htracks, hpreserved, hflushed⟩ := tracks_used sets s errno
  rw [Statement.run]
  generalize s.uses.foldl (Running.use sets) (s.init sets errno) = m at htracks hpreserved hflushed ⊢
  rw [← hpreserved] at h
  cases hlogging : s.logging with
  | logMessage =>
    have hsame : s.destroyErrno sets m = m := by rw [Statement.destroyErrno, hlogging]
    obtain ⟨hlast, hpreserved', hdone⟩ := @tracks_destroy sets s.logging.constructor s.flags s.throws m htracks
    rw [restores_logMessage hlogging, ← hflushed, ← hdone, Bool.not_eq_true, ← hpreserved'] at h
    rw [hsame]
    exact hlast.lost v hv h
  | errnoLogMessage severity sendMethod strerrorR =>
    rw [restores_errnoLogMessage hlogging, ← hflushed] at h
    cases hbefore : m.data.hasBeenFlushed with
    | true =>
      -- nothing is restored behind `StrError`
      have hflushed' : (s.destroyErrno sets m).data.hasBeenFlushed = true := by
        rw [Statement.destroyErrno, hlogging]
        exact hbefore
      rw [destroy_of_flushed hflushed', Statement.destroyErrno, hlogging]
      rcases h with hnot | hzero
      · exact value_strError (fun hsucceeds => hnot (Or.inl ⟨hbefore, hsucceeds⟩)) hv
      · exact value_strError_of_eq hv (htracks.lost v hv (Or.inr hzero))
    | false =>
      obtain ⟨htracks', hpreserved', hfresh⟩ := @tracks_destroyErrno sets s.logging.constructor m s htracks hbefore
      obtain ⟨hlast, hpreserved'', hdone⟩ := @tracks_destroy sets s.logging.constructor s.flags s.throws _ htracks'
      rw [hfresh, or_iff_right Bool.false_ne_true] at hdone
      have hnot : ¬ Finishes s.logging.constructor s.flags s.throws ∨ m.preservedErrno = 0 :=
        h.imp_left fun hrestores hfinishes => hrestores (Or.inr ⟨hbefore ▸ Bool.false_ne_true, hfinishes⟩)
      rw [← hdone, ← hpreserved', ← hpreserved'', Bool.not_eq_true] at hnot
      exact hlast.lost v hv hnot

theorem allocatesQuietly_iff : s.AllocatesQuietly errno ↔ s.preservedErrno errno = errno := by
  rw [Statement.AllocatesQuietly, Statement.preservedErrno]
  cases s.threadDataAvailable with
  | true => exact iff_of_true (Or.inl rfl) rfl
  | false =>
    cases s.allocation with
    | none => exact iff_of_true (Or.inr fun v hv => by cases hv) rfl
    | some v =>
      constructor
      · rintro (heq | hall)
        · cases heq
        · exact hall v rfl
      · intro heq
        exact Or.inr fun w hw => (Option.some.inj hw).symm.trans heq

/-- A logging statement keeps errno, whatever it is, exactly if a flush gets to its end, which is not the case where the
    message is suppressed, or a sink throws while it is waited for, if `StrError` sets nothing behind a flush by hand,
    and if errno has not been changed before it is saved. -/
theorem keepsErrno_iff (s : Statement) (hset : errno ≠ 0) :
    s.KeepsErrno errno ↔ s.AllocatesQuietly errno ∧ s.Restores errno := by
  rw [allocatesQuietly_iff]
  constructor
  · intro hkeeps
    have hall : ¬ (¬ s.Restores (s.preservedErrno errno) ∨ s.preservedErrno errno = 0) := by
      intro hnot
      have hlost := @run_of_not_restores (fun _ => some (errno + 1)) s errno hnot (errno + 1) fun _ => rfl
      rw [hkeeps] at hlost
      omega
    obtain ⟨hrestores, hsaved⟩ := not_or.mp hall
    have hrestored := @run_of_restores (fun _ => none) s errno (not_not.mp hrestores) hsaved
    rw [hkeeps] at hrestored
    exact ⟨hrestored.symm, hrestored.symm ▸ not_not.mp hrestores⟩
  · rintro ⟨hsaved, hrestores⟩ sets
    exact (run_of_restores (hsaved.symm ▸ hrestores) (hsaved.symm ▸ hset)).trans hsaved

end

/-! ### A message that may be suppressed -/

/-- `LOG(INFO)`, at a level. -/
def plainStatement (minloglevel : Int) : Statement where
  logging := .logMessage .plain
  below := nofun
  prefixFlags := plainPrefixFlags
  info := plainInfo .info
  threadDataAvailable := true
  allocation := none
  text := fun _ => ' '
  uses := [.insert ['a']]
  flags := { plainFlags with minloglevel := minloglevel }
  throws := fun _ => false

/-- `PLOG(INFO)`, flushed by hand. -/
def plogStatement : Statement :=
  { plainStatement 0 with
    logging := .errnoLogMessage .info .sendToLog fun _ _ => ⟨.other "No such file or directory".toList, fun _ => ' ', 0⟩
    below := nofun
    uses := [.insert ['a'], .flush plainFlags fun _ => false] }

theorem keepsErrno_plog : plogStatement.KeepsErrno 2 := by
  have hbyHand : plogStatement.FinishesByHand :=
    ⟨plainFlags, fun _ => false, List.mem_cons_of_mem _ List.mem_cons_self, by decide, fun _ _ => rfl, fun _ => rfl⟩
  exact (keepsErrno_iff plogStatement (by decide)).mpr ⟨Or.inl rfl, Or.inl ⟨hbyHand, by decide⟩⟩

/-- `WallTime_Now` sets errno. -/
theorem not_keepsErrno : ¬ ∀ (s : Statement) (errno : Int), errno ≠ 0 → s.KeepsErrno errno := fun h => by
  have hkeeps := h (plainStatement 1) 2 (by decide) fun _ => some 22
  exact absurd hkeeps (by decide)

end Glog.LogMessage
