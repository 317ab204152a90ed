import Mathlib.Logic.Function.Basic
import Glog.Message.Flush
import Glog.Run.Guarded

/-! # Registered sinks

Threads send messages to the sinks of a list that others change. `sink_mutex_` is a lock for readers and writers:
`LogToSinks` and `WaitForSinks` hold it as readers, also during the calls of the sinks, and `AddLogSink` and
`RemoveLogSink` hold it as writers, which is one step here. A `Flush` that a sink calls in its `WaitTillSent` counts as
one of a thread of its own. -/

namespace Glog.LogSink
open LogFile LogMessage Run

/-- What `Flush` does with the registered sinks; it ends with the last one of these. -/
inductive Section
  | logToSinks
  | waitForSinks (last : Bool)
  deriving DecidableEq

/-- The sections of a `Flush` that nothing interrupts. -/
def plan (flags : Flags) (d : LogMessageData) : List Section :=
  (if callsSendToLog d then
    .logToSinks :: if isFatal flags d then [.waitForSinks false] else []
  else []) ++ [.waitForSinks true]

/-- Where a thread is. -/
inductive Phase (Sink : Type)
  | idle
  /-- In `Flush`, before these sections. -/
  | flush (todo : List Section)
  /-- In a section, with the first `i` sinks left: the loops go down. -/
  | visit (sec : Section) (todo : List Section) (i : Nat)
  /-- In a call of a sink. -/
  | call (sec : Section) (todo : List Section) (i : Nat) (sink : Sink)
  /-- An element behind the end of the vector has been read. -/
  | stale

inductive Change (Sink : Type)
  | add (sink : Sink)
  | remove (sink : Sink)

structure State (Thread Sink : Type) where
  /-- No vector counts as an empty one. -/
  sinks : List Sink
  readers : List Thread
  phase : Thread → Phase Sink
  /-- The changes of the list, the last one first. -/
  history : List (Change Sink)
  /-- The sinks that the thread's `Flush` has called `send` of, and not `WaitTillSent` since. -/
  pending : Thread → List Sink

def start (Thread Sink : Type) : State Thread Sink where
  sinks := []
  readers := []
  phase _ := .idle
  history := []
  pending _ := []

inductive Action (Thread Sink : Type)
  | addLogSink (sink : Sink)
  | removeLogSink (sink : Sink)
  /-- `Flush` is called. -/
  | flush (t : Thread) (flags : Flags) (d : LogMessageData)
  /-- The thread goes on. -/
  | advance (t : Thread)
  /-- What the thread is executing throws. -/
  | throw (t : Thread)

variable {Thread Sink : Type} [DecidableEq Thread] [DecidableEq Sink]

namespace State

def setPhase (t : Thread) (p : Phase Sink) (σ : State Thread Sink) : State Thread Sink :=
  { σ with phase := Function.update σ.phase t p }

/-- The thread is not in `Flush` any more. -/
def leave (t : Thread) (σ : State Thread Sink) : State Thread Sink :=
  { σ.setPhase t .idle with pending := Function.update σ.pending t [] }

def release (t : Thread) (σ : State Thread Sink) : State Thread Sink := { σ with readers := σ.readers.erase t }

end State

/-- What a call of a sink changes. -/
def Section.note (sink : Sink) (pending : List Sink) : Section → List Sink
  | logToSinks => sink :: pending
  | waitForSinks _ => pending.filter (· != sink)

def addLogSink (sink : Sink) (σ : State Thread Sink) : State Thread Sink :=
  if σ.readers = [] then { σ with sinks := σ.sinks ++ [sink], history := .add sink :: σ.history } else σ

/-- Every occurrence is erased. -/
def removeLogSink (sink : Sink) (σ : State Thread Sink) : State Thread Sink :=
  if σ.readers = [] then { σ with sinks := σ.sinks.filter (· != sink), history := .remove sink :: σ.history } else σ

def flush (t : Thread) (flags : Flags) (d : LogMessageData) (σ : State Thread Sink) : State Thread Sink :=
  match σ.phase t with
  | .idle =>
    if isDue flags d then { σ.setPhase t (.flush (plan flags d)) with pending := Function.update σ.pending t [] } else σ
  | _ => σ

def advance (t : Thread) (σ : State Thread Sink) : State Thread Sink :=
  match σ.phase t with
  | .idle | .stale => σ
  | .flush [] => σ.leave t
  | .flush (sec :: todo) => { σ.setPhase t (.visit sec todo σ.sinks.length) with readers := t :: σ.readers }
  | .visit _ todo 0 => (σ.setPhase t (.flush todo)).release t
  | .visit sec todo (i + 1) =>
    match σ.sinks[i]? with
    | none => σ.setPhase t .stale
    | some sink =>
      { σ.setPhase t (.call sec todo i sink) with
        pending := Function.update σ.pending t (sec.note sink (σ.pending t)) }
  | .call sec todo i _ => σ.setPhase t (.visit sec todo i)

/-- An exception leaves a section: `Flush` catches it unless it is the last one. -/
def unwind (t : Thread) (sec : Section) (σ : State Thread Sink) : State Thread Sink :=
  if sec = .waitForSinks true then σ.leave t else σ.setPhase t (.flush [.waitForSinks true])

def throw (t : Thread) (σ : State Thread Sink) : State Thread Sink :=
  match σ.phase t with
  | .call sec _ _ _ => (unwind t sec σ).release t
  -- `WaitForSinks` calls `WaitTillSent` of the sink of the message at its end.
  | .visit (.waitForSinks last) _ 0 => (unwind t (.waitForSinks last) σ).release t
  -- what the method does outside of the sections
  | .flush (sec :: _) => if sec = .waitForSinks true then σ else σ.setPhase t (.flush [.waitForSinks true])
  | _ => σ

/-- An action that is not possible changes nothing. -/
def step (σ : State Thread Sink) : Action Thread Sink → State Thread Sink
  | .addLogSink sink => addLogSink sink σ
  | .removeLogSink sink => removeLogSink sink σ
  | .flush t flags d => flush t flags d σ
  | .advance t => advance t σ
  | .throw t => throw t σ

/-! ### One thread -/

/-- A step that is about one thread: its place in the code, whether it holds the lock, and what it has still to wait for. -/
structure Local (t : Thread) (σ σ' : State Thread Sink) (p : Phase Sink) : Prop where
  sinks : σ'.sinks = σ.sinks
  history : σ'.history = σ.history
  phase : σ'.phase = Function.update σ.phase t p
  readers : ∀ u, u ≠ t → u ∈ σ.readers → u ∈ σ'.readers
  pending : ∀ u, u ≠ t → σ'.pending u = σ.pending u

namespace Local
variable {t u : Thread} {σ σ' : State Thread Sink} {p : Phase Sink}

omit [DecidableEq Sink] in
theorem phase_self (h : Local t σ σ' p) : σ'.phase t = p := by rw [h.phase, Function.update_self]

omit [DecidableEq Sink] in
theorem phase_ne (h : Local t σ σ' p) (hne : u ≠ t) : σ'.phase u = σ.phase u := by rw [h.phase, Function.update_of_ne hne]

omit [DecidableEq Sink] in
theorem setPhase (t : Thread) (p : Phase Sink) (σ : State Thread Sink) : Local t σ (σ.setPhase t p) p :=
  ⟨rfl, rfl, rfl, fun _ _ h => h, fun _ _ => rfl⟩

omit [DecidableEq Sink] in
theorem leave (t : Thread) (σ : State Thread Sink) : Local t σ (σ.leave t) .idle :=
  ⟨rfl, rfl, rfl, fun _ _ h => h, fun _ hne => Function.update_of_ne hne _ _⟩

omit [DecidableEq Sink] in
theorem release (h : Local t σ σ' p) : Local t σ (σ'.release t) p :=
  ⟨h.sinks, h.history, h.phase, fun u hne hu => (List.mem_erase_of_ne hne).mpr (h.readers u hne hu), h.pending⟩

omit [DecidableEq Sink] in
theorem acquire (h : Local t σ σ' p) : Local t σ { σ' with readers := t :: σ'.readers } p :=
  ⟨h.sinks, h.history, h.phase, fun u hne hu => List.mem_cons_of_mem t (h.readers u hne hu), h.pending⟩

omit [DecidableEq Sink] in
theorem note (h : Local t σ σ' p) (pending : List Sink) :
    Local t σ { σ' with pending := Function.update σ.pending t pending } p :=
  ⟨h.sinks, h.history, h.phase, h.readers, fun _ hne => Function.update_of_ne hne _ _⟩

omit [DecidableEq Sink] in
theorem flush (t : Thread) (flags : Flags) (d : LogMessageData) (σ : State Thread Sink) :
    flush t flags d σ = σ ∨ ∃ p, Local t σ (flush t flags d σ) p := by
  unfold LogSink.flush
  split
  · split
    · exact Or.inr ⟨_, (setPhase t _ σ).note []⟩
    · exact Or.inl rfl
  · exact Or.inl rfl

theorem advance (t : Thread) (σ : State Thread Sink) : advance t σ = σ ∨ ∃ p, Local t σ (advance t σ) p := by
  unfold LogSink.advance
  split
  · exact Or.inl rfl
  · exact Or.inl rfl
  · exact Or.inr ⟨_, .leave t σ⟩
  · exact Or.inr ⟨_, (setPhase t _ σ).acquire⟩
  · exact Or.inr ⟨_, (setPhase t _ σ).release⟩
  · split
    · exact Or.inr ⟨_, .setPhase t _ σ⟩
    · exact Or.inr ⟨_, (setPhase t _ σ).note _⟩
  · exact Or.inr ⟨_, .setPhase t _ σ⟩

omit [DecidableEq Sink] in
theorem unwind (t : Thread) (sec : Section) (σ : State Thread Sink) : ∃ p, Local t σ ((unwind t sec σ).release t) p := by
  unfold LogSink.unwind
  split
  · exact ⟨_, (leave t σ).release⟩
  · exact ⟨_, (setPhase t _ σ).release⟩

omit [DecidableEq Sink] in
theorem throw (t : Thread) (σ : State Thread Sink) : throw t σ = σ ∨ ∃ p, Local t σ (throw t σ) p := by
  unfold LogSink.throw
  split
  · exact Or.inr (unwind t _ σ)
  · exact Or.inr (unwind t _ σ)
  · split
    · exact Or.inl rfl
    · exact Or.inr ⟨_, .setPhase t _ σ⟩
  · exact Or.inl rfl

end Local

end Glog.LogSink
