import Mathlib.Logic.Function.Basic
import Glog.Run.Guarded

/-! # Signals

A process with its threads, the signals that are pending, and what is done with each of them: the default, which ends the
process, or the handler. The handler runs on top of what the thread was doing, and its signal is blocked in the thread until
it returns. When it does, no pending signal that would end the process is left to the thread. -/

namespace Signals

inductive Disposition
  | default | handler
  deriving DecidableEq

/-- What the handler does next; `σ` is what the threads share, and `ι` are the places in the handler. -/
inductive Effect (σ ι : Type)
  | next (shared : σ) (point : ι)
  /-- `sigaction` resets the signal that is handled to its default. -/
  | reset (point : ι)
  /-- `kill` sends the process the signal that is handled. -/
  | kill (point : ι)
  | ret

structure Handler (Thread Signal σ ι : Type) where
  entry : ι
  exec : Thread → Signal → ι → σ → Effect σ ι

/-- A handler that has been called. -/
structure Frame (Signal ι : Type) where
  signal : Signal
  point : ι

/-- A signal for a thread, or for whichever thread of the process takes it. -/
structure Pending (Thread Signal : Type) where
  target : Option Thread
  signal : Signal
  deriving DecidableEq

structure State (Thread Signal σ ι : Type) where
  shared : σ
  disposition : Signal → Disposition
  /-- What a thread blocks by itself. -/
  mask : Thread → Signal → Bool
  pending : List (Pending Thread Signal)
  /-- The handlers of a thread, the innermost one first. -/
  frames : Thread → List (Frame Signal ι)
  running : Bool

inductive Action (Thread Signal : Type)
  | send (p : Pending Thread Signal)
  /-- The thread takes a pending signal. -/
  | deliver (t : Thread) (p : Pending Thread Signal)
  /-- An instruction of the thread raises a signal. -/
  | fault (t : Thread) (sig : Signal)
  /-- The thread goes on with its innermost handler. -/
  | run (t : Thread)
  /-- `pthread_sigmask` is called outside of the handlers. -/
  | setMask (t : Thread) (mask : Signal → Bool)

variable {Thread Signal σ ι : Type} [DecidableEq Thread] [DecidableEq Signal]

namespace State

def setFrames (t : Thread) (fs : List (Frame Signal ι)) (s : State Thread Signal σ ι) : State Thread Signal σ ι :=
  { s with frames := Function.update s.frames t fs }

/-- What has ended keeps what it had. -/
def endProcess (s : State Thread Signal σ ι) : State Thread Signal σ ι := { s with running := false }

omit [DecidableEq Thread] in
def blocks (t : Thread) (sig : Signal) (s : State Thread Signal σ ι) : Bool :=
  s.mask t sig || (s.frames t).any fun f => f.signal == sig

/-- A signal that is pending already is not sent twice. -/
def send (p : Pending Thread Signal) (s : State Thread Signal σ ι) : State Thread Signal σ ι :=
  if p ∈ s.pending then s else { s with pending := p :: s.pending }

/-- Whether a pending signal ends the process as soon as the thread goes on with its program. -/
def endsIn (t : Thread) (s : State Thread Signal σ ι) : Bool :=
  s.pending.any fun p => (p.target == none || p.target == some t) && s.disposition p.signal == .default &&
    !s.blocks t p.signal

end State

section
variable (h : Handler Thread Signal σ ι)

/-- A signal that is not blocked is taken, and leaves these pending. -/
def take (t : Thread) (sig : Signal) (pending : List (Pending Thread Signal)) (s : State Thread Signal σ ι) :
    State Thread Signal σ ι :=
  match s.disposition sig with
  | .default => s.endProcess
  | .handler => { s.setFrames t (⟨sig, h.entry⟩ :: s.frames t) with pending := pending }

def deliver (t : Thread) (p : Pending Thread Signal) (s : State Thread Signal σ ι) : State Thread Signal σ ι :=
  if p ∈ s.pending ∧ (p.target = none ∨ p.target = some t) ∧ s.blocks t p.signal = false then
    take h t p.signal (s.pending.erase p) s
  else s

/-- A signal that is raised while it is blocked ends the process. -/
def fault (t : Thread) (sig : Signal) (s : State Thread Signal σ ι) : State Thread Signal σ ι :=
  if s.blocks t sig then s.endProcess else take h t sig s.pending s

def run (t : Thread) (s : State Thread Signal σ ι) : State Thread Signal σ ι :=
  match s.frames t with
  | [] => s
  | f :: rest =>
    match h.exec t f.signal f.point s.shared with
    | .next shared point => { s.setFrames t (⟨f.signal, point⟩ :: rest) with shared := shared }
    | .reset point =>
      { s.setFrames t (⟨f.signal, point⟩ :: rest) with disposition := Function.update s.disposition f.signal .default }
    | .kill point => (s.setFrames t (⟨f.signal, point⟩ :: rest)).send ⟨none, f.signal⟩
    | .ret => if (s.setFrames t rest).endsIn t then s.endProcess else s.setFrames t rest

/-- An action that is not possible changes nothing. -/
def step (s : State Thread Signal σ ι) (a : Action Thread Signal) : State Thread Signal σ ι :=
  if s.running then
    match a with
    | .send p => s.send p
    | .deliver t p => deliver h t p s
    | .fault t sig => fault h t sig s
    | .run t => run h t s
    | .setMask t mask => if (s.frames t).isEmpty then { s with mask := Function.update s.mask t mask } else s
  else s

/-! ### What a step can do -/

/-- The steps, with what is known where they are taken. -/
inductive Step (s : State Thread Signal σ ι) : Action Thread Signal → State Thread Signal σ ι → Prop
  | stay {a : Action Thread Signal} : Step s a s
  | endDelivered {t : Thread} {p : Pending Thread Signal} (hopen : s.blocks t p.signal = false)
      (hdefault : s.disposition p.signal = .default) : Step s (.deliver t p) s.endProcess
  | endFault {t : Thread} {sig : Signal} (hend : s.blocks t sig = true ∨ s.disposition sig = .default) :
      Step s (.fault t sig) s.endProcess
  | endReturn {t : Thread} {f : Frame Signal ι} {rest : List (Frame Signal ι)} (hframes : s.frames t = f :: rest)
      (hret : h.exec t f.signal f.point s.shared = .ret) : Step s (.run t) s.endProcess
  | send {p : Pending Thread Signal} : Step s (.send p) (s.send p)
  | setMask {t : Thread} {mask : Signal → Bool} (hframes : s.frames t = []) :
      Step s (.setMask t mask) { s with mask := Function.update s.mask t mask }
  | enterDelivered {t : Thread} {p : Pending Thread Signal} (hopen : s.blocks t p.signal = false)
      (hhandler : s.disposition p.signal = .handler) :
      Step s (.deliver t p) { s.setFrames t (⟨p.signal, h.entry⟩ :: s.frames t) with pending := s.pending.erase p }
  | enterFault {t : Thread} {sig : Signal} (hopen : s.blocks t sig = false) (hhandler : s.disposition sig = .handler) :
      Step s (.fault t sig) (s.setFrames t (⟨sig, h.entry⟩ :: s.frames t))
  | next {t : Thread} {f : Frame Signal ι} {rest : List (Frame Signal ι)} {shared : σ} {point : ι}
      (hframes : s.frames t = f :: rest) (hexec : h.exec t f.signal f.point s.shared = .next shared point) :
      Step s (.run t) { s.setFrames t (⟨f.signal, point⟩ :: rest) with shared := shared }
  | reset {t : Thread} {f : Frame Signal ι} {rest : List (Frame Signal ι)} {point : ι}
      (hframes : s.frames t = f :: rest) (hexec : h.exec t f.signal f.point s.shared = .reset point) :
      Step s (.run t)
        { s.setFrames t (⟨f.signal, point⟩ :: rest) with disposition := Function.update s.disposition f.signal .default }
  | kill {t : Thread} {f : Frame Signal ι} {rest : List (Frame Signal ι)} {point : ι}
      (hframes : s.frames t = f :: rest) (hexec : h.exec t f.signal f.point s.shared = .kill point) :
      Step s (.run t) ((s.setFrames t (⟨f.signal, point⟩ :: rest)).send ⟨none, f.signal⟩)
  | ret {t : Thread} {f : Frame Signal ι} {rest : List (Frame Signal ι)}
      (hframes : s.frames t = f :: rest) (hexec : h.exec t f.signal f.point s.shared = .ret)
      (hgoes : (s.setFrames t rest).endsIn t = false) : Step s (.run t) (s.setFrames t rest)

end

section
variable {h : Handler Thread Signal σ ι} {s : State Thread Signal σ ι} {t u : Thread} {sig : Signal}
  {p : Pending Thread Signal} {f : Frame Signal ι} {rest : List (Frame Signal ι)}

theorem step_ended (hended : s.running = false) (a : Action Thread Signal) : step h s a = s := by
  unfold step
  rw [hended]
  rfl

theorem deliver_step : Step h s (.deliver t p) (deliver h t p s) := by
  unfold deliver
  split
  · rename_i hcond
    obtain ⟨-, -, hopen⟩ := hcond
    unfold take
    cases hdisp : s.disposition p.signal with
    | default => exact .endDelivered hopen hdisp
    | handler => exact .enterDelivered hopen hdisp
  · exact .stay

theorem fault_step : Step h s (.fault t sig) (fault h t sig s) := by
  unfold fault
  split
  · rename_i hblocked
    exact .endFault (Or.inl hblocked)
  · rename_i hopen
    unfold take
    cases hdisp : s.disposition sig with
    | default => exact .endFault (Or.inr hdisp)
    | handler => exact .enterFault (Bool.not_eq_true _ ▸ hopen) hdisp

theorem run_step : Step h s (.run t) (run h t s) := by
  unfold run
  cases hframes : s.frames t with
  | nil => exact .stay
  | cons f rest =>
    dsimp only
    cases hexec : h.exec t f.signal f.point s.shared with
    | next shared point => exact .next hframes hexec
    | reset point => exact .reset hframes hexec
    | kill point => exact .kill hframes hexec
    | ret =>
      dsimp only
      split
      · exact .endReturn hframes hexec
      · rename_i hgoes
        exact .ret hframes hexec (Bool.not_eq_true _ ▸ hgoes)

/-- Every step is one of these. -/
theorem step_step (a : Action Thread Signal) : Step h s a (step h s a) := by
  unfold step
  split
  · cases a with
    | send p => exact .send
    | deliver t p => exact deliver_step
    | fault t sig => exact fault_step
    | run t => exact run_step
    | setMask t mask =>
      dsimp only
      split
      · rename_i hempty
        exact .setMask (List.isEmpty_iff.mp hempty)
      · exact .stay
  · exact .stay

/-! ### The frames -/

omit [DecidableEq Signal] in
@[simp] theorem frames_setFrames_self (fs : List (Frame Signal ι)) : (s.setFrames t fs).frames t = fs :=
  Function.update_self ..

omit [DecidableEq Signal] in
theorem frames_setFrames_ne (hne : u ≠ t) (fs : List (Frame Signal ι)) : (s.setFrames t fs).frames u = s.frames u :=
  Function.update_of_ne hne ..

@[simp] theorem frames_send : (s.send p).frames = s.frames := by
  unfold State.send
  split <;> rfl

@[simp] theorem mask_send : (s.send p).mask = s.mask := by
  unfold State.send
  split <;> rfl

@[simp] theorem shared_send : (s.send p).shared = s.shared := by
  unfold State.send
  split <;> rfl

@[simp] theorem disposition_send : (s.send p).disposition = s.disposition := by
  unfold State.send
  split <;> rfl

@[simp] theorem running_send : (s.send p).running = s.running := by
  unfold State.send
  split <;> rfl

theorem mem_pending_send {q : Pending Thread Signal} : q ∈ (s.send p).pending ↔ q = p ∨ q ∈ s.pending := by
  unfold State.send
  split
  · rename_i hmem
    exact ⟨Or.inr, fun h => h.elim (fun heq => heq ▸ hmem) id⟩
  · exact List.mem_cons

omit [DecidableEq Thread] in
theorem blocks_eq_false : s.blocks t sig = false ↔ s.mask t sig = false ∧ ∀ f ∈ s.frames t, f.signal ≠ sig := by
  simp [State.blocks]

/-- A thread handles each signal once at most, and none that it blocks by itself. -/
structure Sound (s : State Thread Signal σ ι) : Prop where
  nodup : ∀ t, ((s.frames t).map Frame.signal).Nodup
  unmasked : ∀ t, ∀ f ∈ s.frames t, s.mask t f.signal = false

namespace Sound

omit [DecidableEq Signal] in
/-- The frames of a thread are replaced by others for the same signals, or for some of them. -/
theorem setFrames (hs : Sound s) {fs : List (Frame Signal ι)}
    (hsub : (fs.map Frame.signal).Sublist ((s.frames t).map Frame.signal)) :
    Sound (s.setFrames t fs) where
  nodup u := by
    rcases eq_or_ne u t with rfl | hne
    · rw [frames_setFrames_self]
      exact (hs.nodup u).sublist hsub
    · rw [frames_setFrames_ne hne]
      exact hs.nodup u
  unmasked u g hg := by
    rcases eq_or_ne u t with rfl | hne
    · rw [frames_setFrames_self] at hg
      obtain ⟨f, hf, heq⟩ := List.mem_map.mp (hsub.subset (List.mem_map_of_mem hg))
      rw [← heq]
      exact hs.unmasked u f hf
    · rw [frames_setFrames_ne hne] at hg
      exact hs.unmasked u g hg

omit [DecidableEq Signal] in
/-- The innermost handler goes on. -/
theorem move (hs : Sound s) (hframes : s.frames t = f :: rest) (point : ι) :
    Sound (s.setFrames t (⟨f.signal, point⟩ :: rest)) := by
  refine hs.setFrames ?_
  rw [hframes]
  exact List.Sublist.refl _

omit [DecidableEq Signal] in
theorem pop (hs : Sound s) (hframes : s.frames t = f :: rest) : Sound (s.setFrames t rest) := by
  refine hs.setFrames ?_
  rw [hframes]
  exact List.sublist_cons_self ..

theorem enter (hs : Sound s) (hopen : s.blocks t sig = false) (point : ι) :
    Sound (s.setFrames t (⟨sig, point⟩ :: s.frames t)) := by
  obtain ⟨hmask, hfree⟩ := blocks_eq_false.mp hopen
  constructor
  · intro u
    rcases eq_or_ne u t with rfl | hne
    · rw [frames_setFrames_self, List.map_cons, List.nodup_cons]
      refine ⟨fun hmem => ?_, hs.nodup u⟩
      obtain ⟨f, hf, heq⟩ := List.mem_map.mp hmem
      exact hfree f hf heq
    · rw [frames_setFrames_ne hne]
      exact hs.nodup u
  · intro u g hg
    rcases eq_or_ne u t with rfl | hne
    · rw [frames_setFrames_self] at hg
      rcases List.mem_cons.mp hg with rfl | hg
      · exact hmask
      · exact hs.unmasked u g hg
    · rw [frames_setFrames_ne hne] at hg
      exact hs.unmasked u g hg

omit [DecidableEq Thread] [DecidableEq Signal] in
theorem congr {s' : State Thread Signal σ ι} (hs : Sound s) (hframes : s'.frames = s.frames)
    (hmask : s'.mask = s.mask) : Sound s' where
  nodup u := by
    rw [hframes]
    exact hs.nodup u
  unmasked u g hg := by
    rw [hframes] at hg
    rw [hmask]
    exact hs.unmasked u g hg

theorem of_step {s' : State Thread Signal σ ι} {a : Action Thread Signal} (hs : Sound s) (hstep : Step h s a s') :
    Sound s' := by
  cases hstep with
  | stay => exact hs
  | endDelivered => exact hs.congr rfl rfl
  | endFault => exact hs.congr rfl rfl
  | endReturn => exact hs.congr rfl rfl
  | send => exact hs.congr frames_send mask_send
  | @setMask t mask hframes =>
    refine ⟨hs.nodup, fun u g hg => ?_⟩
    rcases eq_or_ne u t with rfl | hne
    · dsimp only at hg
      rw [hframes] at hg
      cases hg
    · dsimp only
      rw [Function.update_of_ne hne]
      exact hs.unmasked u g hg
  | enterDelivered hopen hhandler => exact (hs.enter hopen h.entry).congr rfl rfl
  | enterFault hopen hhandler => exact hs.enter hopen h.entry
  | @next t f rest shared point hframes hexec => exact (hs.move hframes point).congr rfl rfl
  | @reset t f rest point hframes hexec => exact (hs.move hframes point).congr rfl rfl
  | @kill t f rest point hframes hexec => exact (hs.move hframes point).congr frames_send mask_send
  | ret hframes hexec hgoes => exact hs.pop hframes

end Sound

end

end Signals
