import Glog.LogFile.Object
import Glog.Signals.Process

/-! # The failure signal handler

`FailureSignalHandler` may be called in several threads, and again in the thread in which it runs. The first call writes the
report, flushes the log files and kills the process; the others wait, and one that interrupts the first kills the process
first. `kill` does not reach a thread that blocks the signal, as the handler of a signal does.

The signals here are those of `kFailureSignals`, for which the handler is installed. -/

namespace Glog.Signalhandler
open LogFile Run Signals

/-- What the calls share. -/
structure Crash (Thread : Type) where
  /-- The thread that `g_entered_thread_id_pointer` points to. -/
  entered : Option Thread
  /-- What `g_failure_writer` has been called with. -/
  written : List Text
  /-- `FlushLogFilesUnsafe` has been called. -/
  flushed : Bool

inductive Point
  /-- Before the pointer is compared and swapped. -/
  | entry
  /-- The pointer was set before. -/
  | compare
  /-- The rest of the report is to be written. -/
  | write (rest : List Text)
  | flush
  /-- In `InvokeDefaultSignalHandler`, which is called a second time by the thread that is interrupted. -/
  | reset (again : Bool)
  | kill (again : Bool)
  | sleep
  | leave

section
variable {Thread Signal : Type} [DecidableEq Thread] [DecidableEq Signal]

/-- `FailureSignalHandler`, with what it has to report in a thread. -/
def failureSignalHandler (report : Thread → Signal → List Text) : Handler Thread Signal (Crash Thread) Point where
  entry := .entry
  exec t sig point crash :=
    match point with
    | .entry =>
      match crash.entered with
      | none => .next { crash with entered := some t } (.write (report t sig))
      | some _ => .next crash .compare
    -- It looks the current thread is reentering the signal handler.
    | .compare => .next crash (if crash.entered = some t then .reset true else .sleep)
    | .write [] => .next crash .flush
    | .write (text :: rest) => .next { crash with written := crash.written ++ [text] } (.write rest)
    | .flush => .next { crash with flushed := true } (.reset false)
    | .reset again => .reset (.kill again)
    | .kill again => .kill (if again then .sleep else .leave)
    | .sleep => .next crash .sleep
    | .leave => .ret

/-- `InstallFailureSignalHandler` has been called, and no signal has come yet. -/
def start (mask : Thread → Signal → Bool) : State Thread Signal (Crash Thread) Point where
  shared := ⟨none, [], false⟩
  disposition _ := .handler
  mask := mask
  pending := []
  frames _ := []
  running := true

/-- The call is the one that makes the report. -/
def Point.dumps : Point → Bool
  | .write _ | .flush | .reset false | .kill false | .leave => true
  | .entry | .compare | .reset true | .kill true | .sleep => false

def dumping (f : Frame Signal Point) : Bool := f.point.dumps

variable {report : Thread → Signal → List Text} {s s' : State Thread Signal (Crash Thread) Point} {t u : Thread}
    {sig : Signal} {f : Frame Signal Point} {rest : List (Frame Signal Point)}

/-! ### Where the calls are -/

/-- The report has been made. -/
structure Complete (report : Thread → Signal → List Text) (s : State Thread Signal (Crash Thread) Point) (t : Thread)
    (sig : Signal) :
    Prop where
  entered : s.shared.entered = some t
  written : s.shared.written = report t sig
  flushed : s.shared.flushed = true

/-- What is known of a call at its place. -/
def Placed (report : Thread → Signal → List Text) (s : State Thread Signal (Crash Thread) Point) (t : Thread)
    (sig : Signal) :
    Point → Prop
  | .entry => True
  | .compare | .sleep => s.shared.entered ≠ none
  | .write rest => s.shared.written ++ rest = report t sig ∧ s.shared.flushed = false
  | .flush => s.shared.written = report t sig ∧ s.shared.flushed = false
  | .reset true => s.shared.entered = some t
  | .reset false => Complete report s t sig
  | .kill true => s.shared.entered = some t ∧ s.disposition sig = .default
  | .kill false => Complete report s t sig ∧ s.disposition sig = .default
  | .leave => Complete report s t sig ∧ s.disposition sig = .default ∧ ⟨none, sig⟩ ∈ s.pending

/-- What holds in every state of the process. -/
structure Orderly (report : Thread → Signal → List Text) (s : State Thread Signal (Crash Thread) Point) : Prop where
  sound : Sound s
  placed : ∀ t, ∀ f ∈ s.frames t, Placed report s t f.signal f.point
  idle : s.shared.entered = none → s.shared.written = [] ∧ s.shared.flushed = false
  /-- Exactly one call makes a report, in the thread that has entered first. -/
  dumps : ∀ t, (s.frames t).countP dumping = if s.shared.entered = some t then 1 else 0
  defaulted : ∀ sig, s.disposition sig = .default → ∃ t, s.shared.entered = some t ∧ ∃ f ∈ s.frames t, f.signal = sig

/-- What the steps of other calls keep. -/
structure Keeps (s s' : State Thread Signal (Crash Thread) Point) : Prop where
  entered : ∀ t, s.shared.entered = some t → s'.shared.entered = some t
  disposition : ∀ sig, s.disposition sig = .default → s'.disposition sig = .default
  pending : ∀ sig, s.disposition sig = .default → ⟨none, sig⟩ ∈ s.pending → ⟨none, sig⟩ ∈ s'.pending

omit [DecidableEq Thread] [DecidableEq Signal] in
theorem Keeps.ne_none (h : Keeps s s') (hne : s.shared.entered ≠ none) : s'.shared.entered ≠ none := by
  obtain ⟨t, ht⟩ := Option.ne_none_iff_exists'.mp hne
  rw [h.entered t ht]
  exact Option.some_ne_none t

omit [DecidableEq Thread] [DecidableEq Signal] in
theorem Complete.keep (h : Complete report s t sig) (hkeeps : Keeps s s') (hwritten : s'.shared.written = s.shared.written)
    (hflushed : s'.shared.flushed = s.shared.flushed) : Complete report s' t sig :=
  ⟨hkeeps.entered t h.entered, hwritten.trans h.written, hflushed.trans h.flushed⟩

omit [DecidableEq Thread] [DecidableEq Signal] in
/-- A call stays where it is while another one goes on, if that one does not report or this one does not. -/
theorem Placed.keep {point : Point} (h : Placed report s t sig point) (hkeeps : Keeps s s')
    (hreport : point.dumps = true → s'.shared.written = s.shared.written ∧ s'.shared.flushed = s.shared.flushed) :
    Placed report s' t sig point := by
  cases point with
  | entry => trivial
  | compare => exact hkeeps.ne_none h
  | sleep => exact hkeeps.ne_none h
  | write rest =>
    obtain ⟨hwritten, hflushed⟩ := hreport rfl
    unfold Placed at h ⊢
    rw [hwritten, hflushed]
    exact h
  | flush =>
    obtain ⟨hwritten, hflushed⟩ := hreport rfl
    exact ⟨hwritten.trans h.1, hflushed.trans h.2⟩
  | reset again =>
    cases again with
    | true => exact hkeeps.entered t h
    | false =>
      obtain ⟨hwritten, hflushed⟩ := hreport rfl
      exact Complete.keep h hkeeps hwritten hflushed
  | kill again =>
    cases again with
    | true => exact ⟨hkeeps.entered t h.1, hkeeps.disposition sig h.2⟩
    | false =>
      obtain ⟨hwritten, hflushed⟩ := hreport rfl
      exact ⟨h.1.keep hkeeps hwritten hflushed, hkeeps.disposition sig h.2⟩
  | leave =>
    obtain ⟨hwritten, hflushed⟩ := hreport rfl
    exact ⟨h.1.keep hkeeps hwritten hflushed, hkeeps.disposition sig h.2.1, hkeeps.pending sig h.2.1 h.2.2⟩

omit [DecidableEq Thread] [DecidableEq Signal] in
theorem Keeps.same (hentered : s'.shared.entered = s.shared.entered) (hdisposition : s'.disposition = s.disposition)
    (hpending : s'.pending = s.pending) : Keeps s s' :=
  ⟨fun _ h => hentered.trans h, fun sig h => (congrFun hdisposition sig).trans h, fun _ _ h => hpending ▸ h⟩

omit [DecidableEq Signal] in
theorem exec_reset {point behind : Point} {crash : Crash Thread}
    (hexec : (failureSignalHandler report).exec t sig point crash = .reset behind) :
    ∃ again, point = .reset again ∧ behind = .kill again := by
  unfold failureSignalHandler at hexec
  dsimp only at hexec
  split at hexec
  · split at hexec <;> cases hexec
  · cases hexec
  · cases hexec
  · cases hexec
  · cases hexec
  · cases hexec
    exact ⟨_, rfl, rfl⟩
  · cases hexec
  · cases hexec
  · cases hexec

omit [DecidableEq Signal] in
theorem exec_kill {point behind : Point} {crash : Crash Thread}
    (hexec : (failureSignalHandler report).exec t sig point crash = .kill behind) : 
    ∃ again, point = .kill again ∧ behind = if again then .sleep else .leave := by
  unfold failureSignalHandler at hexec
  dsimp only at hexec
  split at hexec
  · split at hexec <;> cases hexec
  · cases hexec
  · cases hexec
  · cases hexec
  · cases hexec
  · cases hexec
  · cases hexec
    exact ⟨_, rfl, rfl⟩
  · cases hexec
  · cases hexec

omit [DecidableEq Signal] in
theorem exec_ret {point : Point} {crash : Crash Thread}
    (hexec : (failureSignalHandler report).exec t sig point crash = .ret) : point = .leave := by
  unfold failureSignalHandler at hexec
  dsimp only at hexec
  split at hexec
  · split at hexec <;> cases hexec
  · cases hexec
  · cases hexec
  · cases hexec
  · cases hexec
  · cases hexec
  · cases hexec
  · cases hexec
  · rfl

namespace Orderly

omit [DecidableEq Signal] in
theorem entered_of_dumps (hs : Orderly report s) (hf : f ∈ s.frames t) (hd : f.point.dumps = true) :
    s.shared.entered = some t := by
  have hpos : 0 < (s.frames t).countP dumping := List.countP_pos_iff.mpr ⟨f, hf, hd⟩
  rw [hs.dumps t] at hpos
  by_contra hne
  rw [if_neg hne] at hpos
  exact Nat.lt_irrefl 0 hpos

omit [DecidableEq Signal] in
/-- Before a thread has entered, all calls are at their beginning. -/
theorem at_entry (hs : Orderly report s) (hnone : s.shared.entered = none) (hf : f ∈ s.frames t) : f.point = .entry := by
  have hplaced := hs.placed t f hf
  have hdumps : f.point.dumps = false := by
    rw [← Bool.not_eq_true]
    intro hd
    rw [hs.entered_of_dumps hf hd] at hnone
    cases hnone
  cases hpoint : f.point with
  | entry => rfl
  | compare =>
    rw [hpoint] at hplaced
    exact absurd hnone hplaced
  | sleep =>
    rw [hpoint] at hplaced
    exact absurd hnone hplaced
  | reset again =>
    rw [hpoint] at hplaced hdumps
    cases again with
    | true => exact absurd (hnone.symm.trans hplaced) (Option.some_ne_none t).symm
    | false => cases hdumps
  | kill again =>
    rw [hpoint] at hplaced hdumps
    cases again with
    | true => exact absurd (hnone.symm.trans hplaced.1) (Option.some_ne_none t).symm
    | false => cases hdumps
  | write rest =>
    rw [hpoint] at hdumps
    cases hdumps
  | flush =>
    rw [hpoint] at hdumps
    cases hdumps
  | leave =>
    rw [hpoint] at hdumps
    cases hdumps

omit [DecidableEq Signal] in
/-- The call that makes the report is the only one. -/
theorem sole (hs : Orderly report s) (hframes : s.frames t = f :: rest) (hd : f.point.dumps = true) :
    (∀ g ∈ rest, g.point.dumps = false) ∧ ∀ u, u ≠ t → ∀ g ∈ s.frames u, g.point.dumps = false := by
  have hentered := hs.entered_of_dumps (hframes ▸ List.mem_cons_self) hd
  constructor
  · intro g hg
    have hcount := hs.dumps t
    rw [hframes, List.countP_cons_of_pos (show dumping f = true from hd), if_pos hentered] at hcount
    have hzero : rest.countP dumping = 0 := by omega
    exact Bool.not_eq_true _ ▸ List.countP_eq_zero.mp hzero g hg
  · intro u hne g hg
    rw [← Bool.not_eq_true]
    intro hdu
    have hother := hs.entered_of_dumps hg hdu
    exact hne (Option.some.inj (hother.symm.trans hentered))

omit [DecidableEq Signal] in
/-- The innermost call of a thread goes on. -/
theorem advance (hs : Orderly report s) (hframes : s.frames t = f :: rest) {point : Point} (hsound : Sound s')
    (hnew : s'.frames = Function.update s.frames t (⟨f.signal, point⟩ :: rest)) (hkeeps : Keeps s s')
    (hreport : f.point.dumps = true ∨ s'.shared.written = s.shared.written ∧ s'.shared.flushed = s.shared.flushed)
    (hplaced : Placed report s' t f.signal point)
    (hdumps : point.dumps = f.point.dumps ∧ s'.shared.entered = s.shared.entered ∨
      point.dumps = true ∧ s.shared.entered = none ∧ s'.shared.entered = some t)
    (hidle : s'.shared.entered = none → s'.shared.written = [] ∧ s'.shared.flushed = false)
    (hreset : ∀ sig, s'.disposition sig = .default →
      s.disposition sig = .default ∨ sig = f.signal ∧ s'.shared.entered = some t) : Orderly report s' := by
  have hself : s'.frames t = ⟨f.signal, point⟩ :: rest := by rw [hnew, Function.update_self]
  have hother : ∀ u, u ≠ t → s'.frames u = s.frames u := fun u hne => by rw [hnew, Function.update_of_ne hne]
  have hkeep : ∀ u, ∀ g ∈ s.frames u, (f.point.dumps = true → g.point.dumps = false) →
      Placed report s' u g.signal g.point := by
    intro u g hg hquiet
    refine (hs.placed u g hg).keep hkeeps fun hd => ?_
    rcases hreport with hf | hsame
    · rw [hquiet hf] at hd
      cases hd
    · exact hsame
  refine ⟨hsound, fun u g hg => ?_, hidle, fun u => ?_, fun sig hdefault => ?_⟩
  · rcases eq_or_ne u t with rfl | hne
    · rw [hself] at hg
      rcases List.mem_cons.mp hg with rfl | hg
      · exact hplaced
      · exact hkeep u g (hframes ▸ List.mem_cons_of_mem f hg) fun hf => (hs.sole hframes hf).1 g hg
    · rw [hother u hne] at hg
      exact hkeep u g hg fun hf => (hs.sole hframes hf).2 u hne g hg
  · rcases hdumps with ⟨hsame, hentered⟩ | ⟨hd, hnone, hentered⟩
    · rw [hentered, ← hs.dumps u]
      rcases eq_or_ne u t with rfl | hne
      · rw [hself, hframes, List.countP_cons, List.countP_cons]
        unfold dumping
        rw [hsame]
      · rw [hother u hne]
    · have hzero := hs.dumps u
      rw [hnone, if_neg (Option.some_ne_none u).symm] at hzero
      rcases eq_or_ne u t with rfl | hne
      · rw [hframes, List.countP_cons] at hzero
        rw [hself, List.countP_cons_of_pos (show dumping ⟨f.signal, point⟩ = true from hd), if_pos hentered]
        omega
      · rw [hother u hne, hzero, hentered, if_neg fun heq => hne (Option.some.inj heq).symm]
  · rcases hreset sig hdefault with hbefore | ⟨rfl, hentered⟩
    · obtain ⟨u, hu, g, hg, rfl⟩ := hs.defaulted sig hbefore
      refine ⟨u, hkeeps.entered u hu, ?_⟩
      rcases eq_or_ne u t with rfl | hne
      · rw [hframes] at hg
        rw [hself]
        rcases List.mem_cons.mp hg with rfl | hg
        · exact ⟨⟨_, point⟩, List.mem_cons_self, rfl⟩
        · exact ⟨g, List.mem_cons_of_mem _ hg, rfl⟩
      · exact ⟨g, by rw [hother u hne]; exact hg, rfl⟩
    · exact ⟨t, hentered, ⟨f.signal, point⟩, by rw [hself]; exact List.mem_cons_self, rfl⟩

omit [DecidableEq Signal] in
/-- A call is made on top of those that a thread is in. -/
theorem enter (hs : Orderly report s) (hsound : Sound s')
    (hnew : s'.frames = Function.update s.frames t (⟨sig, .entry⟩ :: s.frames t)) (hkeeps : Keeps s s')
    (hshared : s'.shared = s.shared) (hdisposition : s'.disposition = s.disposition) : Orderly report s' := by
  have hself : s'.frames t = ⟨sig, .entry⟩ :: s.frames t := by rw [hnew, Function.update_self]
  have hother : ∀ u, u ≠ t → s'.frames u = s.frames u := fun u hne => by rw [hnew, Function.update_of_ne hne]
  have hold : ∀ u, ∀ g ∈ s.frames u, g ∈ s'.frames u := by
    intro u g hg
    rcases eq_or_ne u t with rfl | hne
    · rw [hself]
      exact List.mem_cons_of_mem _ hg
    · rw [hother u hne]
      exact hg
  refine ⟨hsound, fun u g hg => ?_, ?_, fun u => ?_, fun sig' hdefault => ?_⟩
  · have hcases : g.point = .entry ∨ g ∈ s.frames u := by
      rcases eq_or_ne u t with rfl | hne
      · rw [hself] at hg
        rcases List.mem_cons.mp hg with rfl | hg
        · exact Or.inl rfl
        · exact Or.inr hg
      · rw [hother u hne] at hg
        exact Or.inr hg
    rcases hcases with hentry | hg
    · rw [hentry]
      trivial
    · exact (hs.placed u g hg).keep hkeeps fun _ => ⟨by rw [hshared], by rw [hshared]⟩
  · rw [hshared]
    exact hs.idle
  · rw [hshared, ← hs.dumps u]
    rcases eq_or_ne u t with rfl | hne
    · rw [hself, List.countP_cons_of_neg (by exact Bool.false_ne_true)]
    · rw [hother u hne]
  · rw [hdisposition] at hdefault
    obtain ⟨u, hu, g, hg, heq⟩ := hs.defaulted sig' hdefault
    exact ⟨u, by rw [hshared]; exact hu, g, hold u g hg, heq⟩

omit [DecidableEq Signal] in
/-- The frames and what is shared stay. -/
theorem congr (hs : Orderly report s) (hsound : Sound s') (hframes : s'.frames = s.frames) (hkeeps : Keeps s s')
    (hshared : s'.shared = s.shared) (hdisposition : s'.disposition = s.disposition) : Orderly report s' := by
  refine ⟨hsound, fun u g hg => ?_, ?_, fun u => ?_, fun sig hdefault => ?_⟩
  · rw [hframes] at hg
    exact (hs.placed u g hg).keep hkeeps fun _ => ⟨by rw [hshared], by rw [hshared]⟩
  · rw [hshared]
    exact hs.idle
  · rw [hframes, hshared]
    exact hs.dumps u
  · rw [hdisposition] at hdefault
    rw [hframes, hshared]
    exact hs.defaulted sig hdefault

omit [DecidableEq Signal] in
/-- A call goes on by itself. -/
theorem next (hs : Orderly report s) (hframes : s.frames t = f :: rest) {shared : Crash Thread} {point : Point}
    (hexec : (failureSignalHandler report).exec t f.signal f.point s.shared = .next shared point)
    (hsound : Sound { s.setFrames t (⟨f.signal, point⟩ :: rest) with shared := shared }) :
    Orderly report { s.setFrames t (⟨f.signal, point⟩ :: rest) with shared := shared } := by
  have hplaced := hs.placed t f (hframes ▸ List.mem_cons_self)
  unfold failureSignalHandler at hexec
  dsimp only at hexec
  cases hpoint : f.point with
  | entry =>
    rw [hpoint] at hexec
    dsimp only at hexec
    cases hentered : s.shared.entered with
    | none =>
      rw [hentered] at hexec
      cases hexec
      refine hs.advance hframes hsound rfl ⟨fun u hu => ?_, fun _ h => h, fun _ _ h => h⟩ (Or.inr ⟨rfl, rfl⟩) ?_
        (Or.inr ⟨rfl, hentered, rfl⟩) ?_ fun _ h => Or.inl h
      · rw [hentered] at hu
        cases hu
      · obtain ⟨hwritten, hflushed⟩ := hs.idle hentered
        refine ⟨?_, hflushed⟩
        dsimp only
        rw [hwritten, List.nil_append]
      · intro hnone
        cases hnone
    | some u =>
      rw [hentered] at hexec
      cases hexec
      refine hs.advance hframes hsound rfl (.same rfl rfl rfl) (Or.inr ⟨rfl, rfl⟩) ?_ (Or.inl ⟨?_, rfl⟩) hs.idle
        fun _ h => Or.inl h
      · unfold Placed
        rw [hentered]
        exact Option.some_ne_none u
      · rw [hpoint]
        rfl
  | compare =>
    rw [hpoint] at hexec hplaced
    cases hexec
    by_cases hself : s.shared.entered = some t
    · rw [if_pos hself] at hsound ⊢
      exact hs.advance hframes hsound rfl (.same rfl rfl rfl) (Or.inr ⟨rfl, rfl⟩) hself
        (Or.inl ⟨by rw [hpoint]; rfl, rfl⟩) hs.idle
        fun _ h => Or.inl h
    · rw [if_neg hself] at hsound ⊢
      exact hs.advance hframes hsound rfl (.same rfl rfl rfl) (Or.inr ⟨rfl, rfl⟩) hplaced
        (Or.inl ⟨by rw [hpoint]; rfl, rfl⟩) hs.idle
        fun _ h => Or.inl h
  | write texts =>
    have hd : f.point.dumps = true := by rw [hpoint]; rfl
    have hentered := hs.entered_of_dumps (hframes ▸ List.mem_cons_self) hd
    rw [hpoint] at hexec hplaced
    cases texts with
    | nil =>
      cases hexec
      refine hs.advance hframes hsound rfl (.same rfl rfl rfl) (Or.inl hd) ?_ (Or.inl ⟨hd.symm, rfl⟩) hs.idle
        fun _ h => Or.inl h
      exact ⟨(List.append_nil _).symm.trans hplaced.1, hplaced.2⟩
    | cons text texts =>
      cases hexec
      refine hs.advance hframes hsound rfl (.same rfl rfl rfl) (Or.inl hd) ?_ (Or.inl ⟨hd.symm, rfl⟩) ?_
        fun _ h => Or.inl h
      · exact ⟨(List.append_assoc _ [text] texts).trans hplaced.1, hplaced.2⟩
      · intro hnone
        cases hentered.symm.trans hnone
  | flush =>
    have hd : f.point.dumps = true := by rw [hpoint]; rfl
    have hentered := hs.entered_of_dumps (hframes ▸ List.mem_cons_self) hd
    rw [hpoint] at hexec hplaced
    cases hexec
    exact hs.advance hframes hsound rfl (.same rfl rfl rfl) (Or.inl hd) ⟨hentered, hplaced.1, rfl⟩
      (Or.inl ⟨hd.symm, rfl⟩) (fun hnone => by cases hentered.symm.trans hnone) fun _ h => Or.inl h
  | sleep =>
    rw [hpoint] at hexec hplaced
    cases hexec
    exact hs.advance hframes hsound rfl (.same rfl rfl rfl) (Or.inr ⟨rfl, rfl⟩) hplaced
      (Or.inl ⟨by rw [hpoint], rfl⟩) hs.idle
      fun _ h => Or.inl h
  | reset again =>
    rw [hpoint] at hexec
    cases hexec
  | kill again =>
    rw [hpoint] at hexec
    cases hexec
  | leave =>
    rw [hpoint] at hexec
    cases hexec

/-- The signal that is handled is reset to its default. -/
theorem reset (hs : Orderly report s) (hframes : s.frames t = f :: rest) {point : Point}
    (hexec : (failureSignalHandler report).exec t f.signal f.point s.shared = .reset point)
    (hsound : Sound { s.setFrames t (⟨f.signal, point⟩ :: rest)
      with disposition := Function.update s.disposition f.signal .default }) :
    Orderly report
      { s.setFrames t (⟨f.signal, point⟩ :: rest)
        with disposition := Function.update s.disposition f.signal .default } := by
  obtain ⟨again, hpoint, rfl⟩ := exec_reset hexec
  have hplaced := hs.placed t f (hframes ▸ List.mem_cons_self)
  rw [hpoint] at hplaced
  have hdefault : ∀ sig, s.disposition sig = .default → Function.update s.disposition f.signal .default sig = .default := by
    intro sig hsig
    rcases eq_or_ne sig f.signal with rfl | hne
    · exact Function.update_self ..
    · rw [Function.update_of_ne hne, hsig]
  have hself : Function.update s.disposition f.signal .default f.signal = .default := Function.update_self ..
  have hentered : s.shared.entered = some t := by
    cases again with
    | true => exact hplaced
    | false => exact Complete.entered hplaced
  refine hs.advance hframes hsound rfl ⟨fun _ h => h, hdefault,
    fun _ _ h => h⟩ (Or.inr ⟨rfl, rfl⟩) ?_ (Or.inl ⟨?_, rfl⟩) hs.idle ?_
  · cases again with
    | true => exact ⟨hplaced, hself⟩
    | false => exact ⟨⟨hplaced.entered, hplaced.written, hplaced.flushed⟩, hself⟩
  · rw [hpoint]
    cases again <;> rfl
  · intro sig hsig
    rcases eq_or_ne sig f.signal with rfl | hne
    · exact Or.inr ⟨rfl, hentered⟩
    · dsimp only at hsig
      rw [Function.update_of_ne hne] at hsig
      exact Or.inl hsig

/-- The process is sent the signal that is handled. -/
theorem kill (hs : Orderly report s) (hframes : s.frames t = f :: rest) {point : Point}
    (hexec : (failureSignalHandler report).exec t f.signal f.point s.shared = .kill point)
    (hsound : Sound ((s.setFrames t (⟨f.signal, point⟩ :: rest)).send ⟨none, f.signal⟩)) :
    Orderly report ((s.setFrames t (⟨f.signal, point⟩ :: rest)).send ⟨none, f.signal⟩) := by
  obtain ⟨again, hpoint, rfl⟩ := exec_kill hexec
  have hplaced := hs.placed t f (hframes ▸ List.mem_cons_self)
  rw [hpoint] at hplaced
  have hkeeps : Keeps s ((s.setFrames t (⟨f.signal, if again then .sleep else .leave⟩ :: rest)).send ⟨none, f.signal⟩) := by
    refine ⟨fun u hu => ?_, fun sig hsig => ?_, fun sig _ hsig => ?_⟩
    · rw [shared_send]
      exact hu
    · rw [disposition_send]
      exact hsig
    · exact mem_pending_send.mpr (Or.inr hsig)
  have hidle : s.shared.entered = none → s.shared.written = [] ∧ s.shared.flushed = false := hs.idle
  refine hs.advance hframes hsound (by rw [frames_send]; rfl) hkeeps
    (Or.inr ⟨by rw [shared_send]; rfl, by rw [shared_send]; rfl⟩) ?_
    (Or.inl ⟨?_, by rw [shared_send]; rfl⟩) (by rw [shared_send]; exact hidle) fun sig hsig => ?_
  · cases again with
    | true =>
      refine hkeeps.ne_none ?_
      rw [hplaced.1]
      exact Option.some_ne_none t
    | false =>
      refine ⟨hplaced.1.keep hkeeps (by rw [shared_send]; rfl) (by rw [shared_send]; rfl), ?_,
        mem_pending_send.mpr (Or.inl rfl)⟩
      rw [disposition_send]
      exact hplaced.2
  · rw [hpoint]
    cases again <;> rfl
  · rw [disposition_send] at hsig
    exact Or.inl hsig

/-- No call returns to the program: its signal is pending, and it is not blocked any more. -/
theorem endsIn (hs : Orderly report s) (hframes : s.frames t = f :: rest)
    (hexec : (failureSignalHandler report).exec t f.signal f.point s.shared = .ret) :
    (s.setFrames t rest).endsIn t = true := by
  have hpoint := exec_ret hexec
  have hmem : f ∈ s.frames t := hframes ▸ List.mem_cons_self
  have hplaced := hs.placed t f hmem
  rw [hpoint] at hplaced
  obtain ⟨-, hdefault, hpending⟩ := hplaced
  have hopen : (s.setFrames t rest).blocks t f.signal = false := by
    refine blocks_eq_false.mpr ⟨hs.sound.unmasked t f hmem, fun g hg heq => ?_⟩
    rw [frames_setFrames_self] at hg
    have hnodup := hs.sound.nodup t
    rw [hframes, List.map_cons, List.nodup_cons] at hnodup
    exact hnodup.1 (heq ▸ List.mem_map_of_mem hg)
  refine List.any_eq_true.mpr ⟨⟨none, f.signal⟩, hpending, ?_⟩
  dsimp only
  rw [hopen]
  simp only [beq_self_eq_true, Bool.true_or, Bool.not_false, Bool.and_true, Bool.true_and, beq_iff_eq]
  exact hdefault

theorem of_step (hs : Orderly report s) {a : Action Thread Signal} (hstep : Step (failureSignalHandler report) s a s') :
    Orderly report s' := by
  have hsound : Sound s' := hs.sound.of_step hstep
  cases hstep with
  | stay => exact hs
  | endDelivered => exact hs.congr hsound rfl (.same rfl rfl rfl) rfl rfl
  | endFault => exact hs.congr hsound rfl (.same rfl rfl rfl) rfl rfl
  | endReturn => exact hs.congr hsound rfl (.same rfl rfl rfl) rfl rfl
  | send =>
    refine hs.congr hsound frames_send ⟨fun u hu => ?_, fun sig hsig => ?_,
      fun sig _ hsig => ?_⟩ shared_send disposition_send
    · rw [shared_send]
      exact hu
    · rw [disposition_send]
      exact hsig
    · exact mem_pending_send.mpr (Or.inr hsig)
  | setMask => exact hs.congr hsound rfl (.same rfl rfl rfl) rfl rfl
  | enterDelivered hopen hhandler =>
    refine hs.enter hsound rfl ⟨fun _ h => h, fun _ h => h, fun sig hdefault hmem => ?_⟩ rfl rfl
    -- A signal that is not reset to its default is none of those that the report is ended with.
    refine (List.mem_erase_of_ne fun heq => ?_).mpr hmem
    rw [← heq, hdefault] at hhandler
    cases hhandler
  | enterFault => exact hs.enter hsound rfl (.same rfl rfl rfl) rfl rfl
  | next hframes hexec => exact hs.next hframes hexec hsound
  | reset hframes hexec => exact hs.reset hframes hexec hsound
  | kill hframes hexec => exact hs.kill hframes hexec hsound
  | ret hframes hexec hgoes =>
    rw [hs.endsIn hframes hexec] at hgoes
    cases hgoes

end Orderly

omit [DecidableEq Signal] in
theorem orderly_start (report : Thread → Signal → List Text) (mask : Thread → Signal → Bool) :
    Orderly report (start mask) where
  sound := ⟨fun _ => List.nodup_nil, fun _ _ hf => by cases hf⟩
  placed _ _ hf := by cases hf
  idle _ := ⟨rfl, rfl⟩
  dumps t := by
    rw [if_neg (show (start mask : State Thread Signal (Crash Thread) Point).shared.entered ≠ some t
      from (Option.some_ne_none t).symm)]
    rfl
  defaulted _ h := by cases h

theorem orderly_of_reaches {mask : Thread → Signal → Bool}
    {ok : State Thread Signal (Crash Thread) Point → Action Thread Signal → Prop}
    (h : Reaches (step (failureSignalHandler report)) ok (start mask) s) : Orderly report s :=
  h.invariant (orderly_start report mask) fun _ a hs _ => hs.of_step (step_step a)

end

end Glog.Signalhandler
