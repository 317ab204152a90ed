import Mathlib.Data.List.Infix
import Glog.Signalhandler.Handler

/-! # Crashes

What `FailureSignalHandler` does for the process, over all interleavings of its threads and whatever signals come of those
that it is installed for: one report, from which nobody returns. Unless the thread that makes it is interrupted, the
report is complete when the process ends. If it is interrupted, the process may never end. -/

namespace Glog.Signalhandler
open LogFile Run Signals

section
variable {Thread Signal : Type} [DecidableEq Thread] [DecidableEq Signal] {report : Thread → Signal → List Text}
  {mask : Thread → Signal → Bool} {s s' : State Thread Signal (Crash Thread) Point} {t u : Thread} {sig : Signal}
  {f : Frame Signal Point} {rest : List (Frame Signal Point)} {a : Action Thread Signal}

/-- Every action is allowed. -/
def Any (_ : State Thread Signal (Crash Thread) Point) (_ : Action Thread Signal) : Prop := True

/-- A call that makes a report for the signal. -/
def Reports (s : State Thread Signal (Crash Thread) Point) (t : Thread) (sig : Signal) : Prop :=
  ∃ f ∈ s.frames t, dumping f = true ∧ f.signal = sig

/-- What no step takes back. -/
structure Later (s s' : State Thread Signal (Crash Thread) Point) : Prop where
  entered : ∀ t, s.shared.entered = some t → s'.shared.entered = some t
  written : s.shared.written <+: s'.shared.written
  frames : ∀ t, (s.frames t).map Frame.signal <:+ (s'.frames t).map Frame.signal
  reports : ∀ t sig, Reports s t sig → Reports s' t sig

namespace Later

omit [DecidableEq Thread] [DecidableEq Signal] in
theorem refl (s : State Thread Signal (Crash Thread) Point) : Later s s :=
  ⟨fun _ h => h, List.prefix_refl _, fun _ => List.suffix_refl _, fun _ _ h => h⟩

omit [DecidableEq Thread] [DecidableEq Signal] in
theorem trans {s'' : State Thread Signal (Crash Thread) Point} (h : Later s s') (h' : Later s' s'') : Later s s'' where
  entered t ht := h'.entered t (h.entered t ht)
  written := h.written.trans h'.written
  frames t := (h.frames t).trans (h'.frames t)
  reports t sig hr := h'.reports t sig (h.reports t sig hr)

omit [DecidableEq Thread] [DecidableEq Signal] in
theorem congr (hframes : s'.frames = s.frames) (hshared : s'.shared = s.shared) : Later s s' where
  entered t ht := by rw [hshared]; exact ht
  written := by
    rw [hshared]
  frames t := by
    rw [hframes]
  reports t sig hr := by
    unfold Reports
    rw [hframes]
    exact hr

omit [DecidableEq Signal] in
theorem enter (hframes : s'.frames = Function.update s.frames t (⟨sig, .entry⟩ :: s.frames t))
    (hshared : s'.shared = s.shared) :
    Later s s' where
  entered u hu := by rw [hshared]; exact hu
  written := by
    rw [hshared]
  frames u := by
    rcases eq_or_ne u t with rfl | hne
    · rw [hframes, Function.update_self, List.map_cons]
      exact List.suffix_cons ..
    · rw [hframes, Function.update_of_ne hne]
  reports u sig' hr := by
    obtain ⟨f, hf, hd, hsig⟩ := hr
    refine ⟨f, ?_, hd, hsig⟩
    rcases eq_or_ne u t with rfl | hne
    · rw [hframes, Function.update_self]
      exact List.mem_cons_of_mem _ hf
    · rw [hframes, Function.update_of_ne hne]
      exact hf

omit [DecidableEq Signal] in
theorem advance (hold : s.frames t = f :: rest) {point : Point}
    (hframes : s'.frames = Function.update s.frames t (⟨f.signal, point⟩ :: rest))
    (hd : f.point.dumps = true → point.dumps = true)
    (hentered : ∀ t, s.shared.entered = some t → s'.shared.entered = some t)
    (hwritten : s.shared.written <+: s'.shared.written) :
    Later s s' where
  entered := hentered
  written := hwritten
  frames u := by
    rcases eq_or_ne u t with rfl | hne
    · rw [hframes, Function.update_self, hold, List.map_cons, List.map_cons]
    · rw [hframes, Function.update_of_ne hne]
  reports u sig hr := by
    obtain ⟨g, hg, hdumps, hsig⟩ := hr
    rcases eq_or_ne u t with rfl | hne
    · rw [hold] at hg
      unfold Reports
      rw [hframes, Function.update_self]
      rcases List.mem_cons.mp hg with rfl | hg
      · exact ⟨⟨g.signal, point⟩, List.mem_cons_self, hd hdumps, hsig⟩
      · exact ⟨g, List.mem_cons_of_mem _ hg, hdumps, hsig⟩
    · refine ⟨g, ?_, hdumps, hsig⟩
      rw [hframes, Function.update_of_ne hne]
      exact hg

end Later

/-- What a call leaves of its place and of what is shared when it goes on by itself. -/
structure Goes (point : Point) (crash : Crash Thread) (behind : Point) (shared : Crash Thread) : Prop where
  dumps : point.dumps = true → behind.dumps = true
  entered : ∀ u, crash.entered = some u → shared.entered = some u
  first : ∀ u, shared.entered = some u → crash.entered = some u ∨ crash.entered = none ∧ behind.dumps = true
  written : crash.written <+: shared.written
  same : shared.written = crash.written ∨ ∃ texts, point = .write texts
  flushed : crash.flushed = true → shared.flushed = true

omit [DecidableEq Signal] in
theorem exec_next {point behind : Point} {crash shared : Crash Thread}
    (hexec : (failureSignalHandler report).exec t sig point crash = .next shared behind) :
    Goes point crash behind shared := by
  have hstay : ∀ {point behind : Point}, (point.dumps = true → behind.dumps = true) → Goes point crash behind crash :=
    fun hd => ⟨hd, fun _ h => h, fun _ h => Or.inl h, List.prefix_refl _, Or.inl rfl, id⟩
  unfold failureSignalHandler at hexec
  dsimp only at hexec
  split at hexec
  · split at hexec
    · rename_i hnone
      cases hexec
      refine ⟨nofun, fun u hu => ?_, fun u hu => Or.inr ⟨hnone, rfl⟩, List.prefix_refl _, Or.inl rfl, id⟩
      rw [hnone] at hu
      cases hu
    · cases hexec
      exact hstay nofun
  · cases hexec
    exact hstay nofun
  · cases hexec
    exact hstay fun _ => rfl
  · cases hexec
    exact ⟨fun _ => rfl, fun _ h => h, fun _ h => Or.inl h, List.prefix_append .., Or.inr ⟨_, rfl⟩, id⟩
  · cases hexec
    exact ⟨fun _ => rfl, fun _ h => h, fun _ h => Or.inl h, List.prefix_refl _, Or.inl rfl, fun _ => rfl⟩
  · cases hexec
  · cases hexec
  · cases hexec
    exact hstay nofun
  · cases hexec

theorem later_of_step (hs : Orderly report s) (hstep : Step (failureSignalHandler report) s a s') : Later s s' := by
  cases hstep with
  | stay => exact .refl s
  | endDelivered => exact .congr rfl rfl
  | endFault => exact .congr rfl rfl
  | endReturn => exact .congr rfl rfl
  | send => exact .congr frames_send shared_send
  | setMask => exact .congr rfl rfl
  | enterDelivered => exact .enter rfl rfl
  | enterFault => exact .enter rfl rfl
  | next hframes hexec =>
    have hgoes := exec_next hexec
    exact .advance hframes rfl hgoes.dumps hgoes.entered hgoes.written
  | reset hframes hexec =>
    obtain ⟨again, hpoint, rfl⟩ := exec_reset hexec
    refine .advance hframes rfl (fun hd => ?_) (fun _ h => h) (List.prefix_refl _)
    rw [hpoint] at hd
    cases again with
    | true => cases hd
    | false => rfl
  | kill hframes hexec =>
    obtain ⟨again, hpoint, rfl⟩ := exec_kill hexec
    refine .advance hframes (by rw [frames_send]; rfl) (fun hd => ?_) (fun u hu => by rw [shared_send]; exact hu)
      (by rw [shared_send]; exact List.prefix_refl _)
    rw [hpoint] at hd
    cases again with
    | true => cases hd
    | false => rfl
  | ret hframes hexec hgoes =>
    rw [hs.endsIn hframes hexec] at hgoes
    cases hgoes

theorem orderly_later (hs : Orderly report s) {ok : State Thread Signal (Crash Thread) Point → Action Thread Signal → Prop}
    (h : Reaches (step (failureSignalHandler report)) ok s s') : Orderly report s' ∧ Later s s' := by
  refine h.invariant (I := fun s' => Orderly report s' ∧ Later s s') ⟨hs, .refl s⟩ fun u a hu _ => ?_
  exact ⟨hu.1.of_step (step_step a), hu.2.trans (later_of_step hu.1 (step_step a))⟩

omit [DecidableEq Signal] in
/-- The thread that has entered first is making its report. -/
theorem Orderly.exists_reports (hs : Orderly report s) (ht : s.shared.entered = some t) : ∃ sig, Reports s t sig := by
  have hcount := hs.dumps t
  rw [if_pos ht] at hcount
  obtain ⟨f, hf, hd⟩ := List.countP_pos_iff.mp (Nat.lt_of_lt_of_eq Nat.zero_lt_one hcount.symm)
  exact ⟨f.signal, f, hf, hd, rfl⟩

omit [DecidableEq Signal] in
theorem Orderly.written_prefix (hs : Orderly report s) (hr : Reports s t sig) : s.shared.written <+: report t sig := by
  obtain ⟨f, hf, hd, rfl⟩ := hr
  have hplaced := hs.placed t f hf
  unfold dumping at hd
  cases hpoint : f.point with
  | write texts =>
    rw [hpoint] at hplaced
    exact ⟨texts, hplaced.1⟩
  | flush =>
    rw [hpoint] at hplaced
    rw [hplaced.1]
  | leave =>
    rw [hpoint] at hplaced
    rw [hplaced.1.written]
  | reset again =>
    rw [hpoint] at hplaced hd
    cases again with
    | true => cases hd
    | false =>
      rw [Complete.written hplaced]
  | kill again =>
    rw [hpoint] at hplaced hd
    cases again with
    | true => cases hd
    | false =>
      rw [Complete.written hplaced.1]
  | entry =>
    rw [hpoint] at hd
    cases hd
  | compare =>
    rw [hpoint] at hd
    cases hd
  | sleep =>
    rw [hpoint] at hd
    cases hd

/-! ### One report -/

def sampleReport (_ sig : Bool) : List Text := [[if sig then '*' else '.']]

/-- Two threads with two signals, of which the second thread blocks both, after some steps. -/
def sampleRun (as : List (Signals.Action Bool Bool)) : State Bool Bool (Crash Bool) Point :=
  as.foldl (step (failureSignalHandler sampleReport)) (start fun t _ => t)

theorem reaches_sampleRun (as : List (Signals.Action Bool Bool)) :
    Reaches (step (failureSignalHandler sampleReport)) Any (start fun t _ => t) (sampleRun as) :=
  Reaches.foldl fun _ _ _ => trivial

/-- From the moment at which a thread has entered, everything that is ever written is the beginning of its report. -/
theorem one_report (h : Reaches (step (failureSignalHandler report)) Any (start mask) s) (ht : s.shared.entered = some t) :
    ∃ sig, ∀ s', Reaches (step (failureSignalHandler report)) Any s s' →
      s'.shared.entered = some t ∧ s.shared.written <+: s'.shared.written ∧ s'.shared.written <+: report t sig := by
  have hs := orderly_of_reaches h
  obtain ⟨sig, hr⟩ := hs.exists_reports ht
  refine ⟨sig, fun s' h' => ?_⟩
  obtain ⟨hs', hlater⟩ := orderly_later hs h'
  exact ⟨hlater.entered t ht, hlater.written, hs'.written_prefix (hlater.reports t sig hr)⟩

theorem one_report_sample : ∃ sig : Bool, ∀ s',
    Reaches (step (failureSignalHandler sampleReport)) Any (sampleRun [.fault false true, .run false]) s' →
      s'.shared.entered = some false ∧ (sampleRun [.fault false true, .run false]).shared.written <+: s'.shared.written ∧
        s'.shared.written <+: sampleReport false sig :=
  one_report (reaches_sampleRun _) rfl

/-- No call of the handler returns to the program. -/
theorem never_returns (h : Reaches (step (failureSignalHandler report)) Any (start mask) s)
    (h' : Reaches (step (failureSignalHandler report)) Any s s') (t : Thread) :
    (s.frames t).map Frame.signal <:+ (s'.frames t).map Frame.signal :=
  (orderly_later (orderly_of_reaches h) h').2.frames t

theorem never_returns_sample : [true] <:+ ((sampleRun [.fault false true, .run false]).frames false).map Frame.signal :=
  never_returns (reaches_sampleRun [.fault false true]) (Reaches.foldl fun _ _ _ => trivial) false

/-! ### The report is complete -/

/-- No signal comes to the thread that has entered, and none is raised in a thread that blocks it. -/
def Spares (s : State Thread Signal (Crash Thread) Point) : Action Thread Signal → Prop
  | .deliver t _ => s.shared.entered ≠ some t
  | .fault t sig => s.shared.entered ≠ some t ∧ s.blocks t sig = false
  | .send _ | .run _ | .setMask _ _ => True

/-- The report is made by the innermost call of its thread, the others of which have not begun; a signal is reset, and the
    process ended, only behind it. -/
structure Undisturbed (report : Thread → Signal → List Text) (s : State Thread Signal (Crash Thread) Point) : Prop where
  orderly : Orderly report s
  top : ∀ t, s.shared.entered = some t → ∃ f rest, s.frames t = f :: rest ∧ dumping f = true ∧ ∀ g ∈ rest, g.point = .entry
  defaulted : ∀ sig, s.disposition sig = .default → ∃ t sig', Complete report s t sig'
  ended : s.running = false → ∃ t sig, Complete report s t sig

omit [DecidableEq Thread] [DecidableEq Signal] in
theorem Complete.congr (h : Complete report s t sig) (hshared : s'.shared = s.shared) : Complete report s' t sig :=
  ⟨by rw [hshared]; exact h.entered, by rw [hshared]; exact h.written, by rw [hshared]; exact h.flushed⟩

namespace Undisturbed

omit [DecidableEq Signal] in
theorem congr (hs : Undisturbed report s) (ho : Orderly report s') (hframes : s'.frames = s.frames)
    (hshared : s'.shared = s.shared)
    (hdisposition : s'.disposition = s.disposition) (hended : s'.running = false → ∃ t sig, Complete report s t sig) :
    Undisturbed report s' where
  orderly := ho
  top t ht := by
    rw [hframes]
    rw [hshared] at ht
    exact hs.top t ht
  defaulted sig hdefault := by
    rw [hdisposition] at hdefault
    obtain ⟨t, sig', hc⟩ := hs.defaulted sig hdefault
    exact ⟨t, sig', hc.congr hshared⟩
  ended hend := by
    obtain ⟨t, sig, hc⟩ := hended hend
    exact ⟨t, sig, hc.congr hshared⟩

omit [DecidableEq Signal] in
theorem enter (hs : Undisturbed report s) (ho : Orderly report s') (hne : s.shared.entered ≠ some t)
    (hframes : s'.frames = Function.update s.frames t (⟨sig, .entry⟩ :: s.frames t)) (hshared : s'.shared = s.shared)
    (hdisposition : s'.disposition = s.disposition) (hrunning : s'.running = s.running) : Undisturbed report s' where
  orderly := ho
  top u hu := by
    rw [hshared] at hu
    have hut : u ≠ t := by
      rintro rfl
      exact hne hu
    rw [hframes, Function.update_of_ne hut]
    exact hs.top u hu
  defaulted sig hdefault := by
    rw [hdisposition] at hdefault
    obtain ⟨t, sig', hc⟩ := hs.defaulted sig hdefault
    exact ⟨t, sig', hc.congr hshared⟩
  ended hend := by
    obtain ⟨t, sig, hc⟩ := hs.ended (hrunning ▸ hend)
    exact ⟨t, sig, hc.congr hshared⟩

omit [DecidableEq Signal] in
/-- The innermost call of a thread goes on. -/
theorem advance (hs : Undisturbed report s) (ho : Orderly report s') (hold : s.frames t = f :: rest) {point : Point}
    (hframes : s'.frames = Function.update s.frames t (⟨f.signal, point⟩ :: rest))
    (hd : s'.shared.entered = some t → point.dumps = true)
    (hentered : ∀ u, s'.shared.entered = some u → s.shared.entered = some u ∨ s.shared.entered = none)
    (hcomplete : ∀ u sig, Complete report s u sig → Complete report s' u sig)
    (hdefault : ∀ sig, s'.disposition sig = .default → s.disposition sig = .default ∨ ∃ u sig', Complete report s' u sig')
    (hrunning : s'.running = s.running) : Undisturbed report s' where
  orderly := ho
  top u hu := by
    rcases hentered u hu with hbefore | hnone
    · obtain ⟨g, gs, hg, hdumps, hentry⟩ := hs.top u hbefore
      rcases eq_or_ne u t with rfl | hne
      · rw [hold] at hg
        cases hg
        exact ⟨⟨f.signal, point⟩, rest, by rw [hframes, Function.update_self], hd hu, hentry⟩
      · exact ⟨g, gs, by rw [hframes, Function.update_of_ne hne, hg], hdumps, hentry⟩
    · have hself : u = t := by
        by_contra hne
        obtain ⟨sig, g, hg, hdumps, -⟩ := ho.exists_reports hu
        rw [hframes, Function.update_of_ne hne] at hg
        rw [dumping, hs.orderly.at_entry hnone hg] at hdumps
        cases hdumps
      subst hself
      refine ⟨⟨f.signal, point⟩, rest, by rw [hframes, Function.update_self], hd hu, fun g hg => ?_⟩
      exact hs.orderly.at_entry hnone (hold ▸ List.mem_cons_of_mem f hg)
  defaulted sig hdef := by
    rcases hdefault sig hdef with hbefore | hnow
    · obtain ⟨u, sig', hc⟩ := hs.defaulted sig hbefore
      exact ⟨u, sig', hcomplete u sig' hc⟩
    · exact hnow
  ended hend := by
    obtain ⟨u, sig, hc⟩ := hs.ended (hrunning ▸ hend)
    exact ⟨u, sig, hcomplete u sig hc⟩

omit [DecidableEq Signal] in
/-- The thread that has entered goes on with its report. -/
theorem dumps_top (hs : Undisturbed report s) (hframes : s.frames t = f :: rest) (ht : s.shared.entered = some t) :
    f.point.dumps = true := by
  obtain ⟨g, gs, hg, hd, -⟩ := hs.top t ht
  rw [hframes] at hg
  cases hg
  exact hd

theorem of_step (hs : Undisturbed report s) (hspares : Spares s a) (hstep : Step (failureSignalHandler report) s a s') :
    Undisturbed report s' := by
  have ho : Orderly report s' := hs.orderly.of_step hstep
  cases hstep with
  | stay => exact hs
  | endDelivered hopen hdefault => exact hs.congr ho rfl rfl rfl fun _ => hs.defaulted _ hdefault
  | endFault hend =>
    refine hs.congr ho rfl rfl rfl fun _ => ?_
    rcases hend with hblocked | hdefault
    · rw [hspares.2] at hblocked
      cases hblocked
    · exact hs.defaulted _ hdefault
  | @endReturn t f rest hframes hret =>
    refine hs.congr ho rfl rfl rfl fun _ => ?_
    have hplaced := hs.orderly.placed t f (hframes ▸ List.mem_cons_self)
    rw [exec_ret hret] at hplaced
    exact ⟨t, f.signal, hplaced.1⟩
  | send => exact hs.congr ho frames_send shared_send disposition_send (by rw [running_send]; exact hs.ended)
  | setMask => exact hs.congr ho rfl rfl rfl hs.ended
  | enterDelivered => exact hs.enter ho hspares rfl rfl rfl rfl
  | enterFault => exact hs.enter ho hspares.1 rfl rfl rfl rfl
  | @next t f rest shared point hframes hexec =>
    have hgoes := exec_next hexec
    have hplaced := hs.orderly.placed t f (hframes ▸ List.mem_cons_self)
    refine hs.advance ho hframes rfl (fun ht => ?_) (fun u hu => ?_) (fun u sig hc => ?_) (fun sig hdef => Or.inl hdef) rfl
    · rcases hgoes.first t ht with hbefore | ⟨-, hd⟩
      · exact hgoes.dumps (hs.dumps_top hframes hbefore)
      · exact hd
    · exact (hgoes.first u hu).imp_right And.left
    · refine ⟨hgoes.entered u hc.entered, ?_, hgoes.flushed hc.flushed⟩
      rcases hgoes.same with hsame | ⟨texts, hpoint⟩
      · exact hsame.trans hc.written
      · -- Nothing is written when the files have been flushed.
        rw [hpoint] at hplaced
        cases hplaced.2.symm.trans hc.flushed
  | @reset t f rest point hframes hexec =>
    obtain ⟨again, hpoint, rfl⟩ := exec_reset hexec
    have hplaced := hs.orderly.placed t f (hframes ▸ List.mem_cons_self)
    rw [hpoint] at hplaced
    have hfalse : again = false := by
      rw [← Bool.not_eq_true]
      rintro rfl
      have hd := hs.dumps_top hframes hplaced
      rw [hpoint] at hd
      cases hd
    subst hfalse
    refine hs.advance ho hframes rfl (fun _ => rfl) (fun u hu => Or.inl hu) (fun u sig hc => hc.congr rfl)
      (fun sig hdef => ?_) rfl
    exact Or.inr ⟨t, f.signal, Complete.congr hplaced rfl⟩
  | @kill t f rest point hframes hexec =>
    obtain ⟨again, hpoint, rfl⟩ := exec_kill hexec
    refine hs.advance ho hframes (by rw [frames_send]; rfl) (fun ht => ?_)
      (fun u hu => Or.inl (by rw [shared_send] at hu; exact hu))
      (fun u sig hc => hc.congr shared_send) (fun sig hdef => Or.inl (by rw [disposition_send] at hdef; exact hdef))
        running_send
    rw [shared_send] at ht
    have hd := hs.dumps_top hframes ht
    rw [hpoint] at hd
    cases again with
    | true => cases hd
    | false => rfl
  | ret hframes hexec hgoes =>
    rw [hs.orderly.endsIn hframes hexec] at hgoes
    cases hgoes

end Undisturbed

omit [DecidableEq Signal] in
theorem undisturbed_start (report : Thread → Signal → List Text) (mask : Thread → Signal → Bool) :
    Undisturbed report (start mask) where
  orderly := orderly_start report mask
  top _ h := by cases h
  defaulted _ h := by cases h
  ended h := by cases h

theorem undisturbed_of_reaches (h : Reaches (step (failureSignalHandler report)) Spares (start mask) s) :
    Undisturbed report s :=
  h.invariant (undisturbed_start report mask) fun _ a hs hspares => hs.of_step hspares (step_step a)

/-- If the thread that makes the report is spared, the whole report has been written and the log files have been flushed
when the process ends. -/
theorem complete_of_ended (h : Reaches (step (failureSignalHandler report)) Spares (start mask) s)
    (hended : s.running = false) :
    ∃ t sig, Complete report s t sig :=
  (undisturbed_of_reaches h).ended hended

theorem complete_of_ended_sample : ∃ t sig, Complete sampleReport
    (sampleRun (.fault false true :: List.replicate 7 (.run false))) t sig := by
  have hfirst : Spares (start fun t _ => t : State Bool Bool (Crash Bool) Point) (.fault false true) := ⟨nofun, rfl⟩
  refine complete_of_ended (Reaches.head hfirst (Reaches.foldl ?_)) rfl
  intro s a ha
  rw [List.eq_of_mem_replicate ha]
  trivial

/-! ### The process ends -/

/-- How many turns a call still needs that makes the report. -/
def Point.left : Point → Nat
  | .write rest => rest.length + 5
  | .flush => 4
  | .reset _ => 3
  | .kill _ => 2
  | .leave => 1
  | .entry | .compare | .sleep => 0

theorem Point.left_pos {point : Point} (hd : point.dumps = true) : 0 < point.left := by
  cases point with
  | write rest => exact Nat.succ_pos _
  | flush => exact Nat.succ_pos _
  | reset => exact Nat.succ_pos _
  | kill => exact Nat.succ_pos _
  | leave => exact Nat.succ_pos _
  | entry => cases hd
  | compare => cases hd
  | sleep => cases hd

def isTurn (t : Thread) : Action Thread Signal → Bool
  | .run u => u == t
  | .send _ | .deliver _ _ | .fault _ _ | .setMask _ _ => false

/-- The action brings the thread no signal. -/
def Misses (t : Thread) : Action Thread Signal → Prop
  | .deliver u _ | .fault u _ => u ≠ t
  | .send _ | .run _ | .setMask _ _ => True

omit [DecidableEq Signal] in
/-- A turn of the call that makes the report brings it nearer to its end. -/
theorem exec_dumps {point : Point} (hd : point.dumps = true) (t : Thread) (sig : Signal) (crash : Crash Thread) :
    (failureSignalHandler report).exec t sig point crash = .ret ∨
      ∃ behind, behind.dumps = true ∧ behind.left + 1 = point.left ∧
        ((∃ shared, (failureSignalHandler report).exec t sig point crash = .next shared behind) ∨
          (failureSignalHandler report).exec t sig point crash = .reset behind ∨
            (failureSignalHandler report).exec t sig point crash = .kill behind) := by
  cases point with
  | entry => cases hd
  | compare => cases hd
  | sleep => cases hd
  | write texts =>
    cases texts with
    | nil => exact Or.inr ⟨.flush, rfl, rfl, Or.inl ⟨_, rfl⟩⟩
    | cons text texts => exact Or.inr ⟨.write texts, rfl, rfl, Or.inl ⟨_, rfl⟩⟩
  | flush => exact Or.inr ⟨.reset false, rfl, rfl, Or.inl ⟨_, rfl⟩⟩
  | reset again =>
    cases again with
    | true => cases hd
    | false => exact Or.inr ⟨.kill false, rfl, rfl, Or.inr (Or.inl rfl)⟩
  | kill again =>
    cases again with
    | true => cases hd
    | false => exact Or.inr ⟨.leave, rfl, rfl, Or.inr (Or.inr rfl)⟩
  | leave => exact Or.inl rfl

theorem turn (hs : Orderly report s) (hrunning : s.running = true) (hframes : s.frames t = f :: rest)
    (hd : f.point.dumps = true) : (step (failureSignalHandler report) s (.run t)).running = false ∨
      ∃ g, (step (failureSignalHandler report) s (.run t)).frames t = g :: rest ∧ g.point.dumps = true ∧
        g.point.left + 1 = f.point.left := by
  have hstep : step (failureSignalHandler report) s (.run t) = Signals.run (failureSignalHandler report) t s :=
    if_pos hrunning
  rw [hstep, Signals.run, hframes]
  dsimp only
  rcases exec_dumps hd t f.signal s.shared with hret | ⟨behind, hbehind, hleft, ⟨shared, hexec⟩ | hexec | hexec⟩
  · rw [hret]
    dsimp only
    rw [if_pos (hs.endsIn hframes hret)]
    exact Or.inl rfl
  · rw [hexec]
    exact Or.inr ⟨⟨f.signal, behind⟩, frames_setFrames_self _, hbehind, hleft⟩
  · rw [hexec]
    exact Or.inr ⟨⟨f.signal, behind⟩, frames_setFrames_self _, hbehind, hleft⟩
  · rw [hexec]
    dsimp only
    rw [frames_send]
    exact Or.inr ⟨⟨f.signal, behind⟩, frames_setFrames_self _, hbehind, hleft⟩

theorem frames_of_misses (hmiss : Misses t a) (hother : isTurn t a = false)
    (hstep : Step (failureSignalHandler report) s a s') :
    s'.frames t = s.frames t := by
  cases hstep with
  | stay => rfl
  | endDelivered => rfl
  | endFault => rfl
  | endReturn => rfl
  | send => rw [frames_send]
  | setMask => rfl
  | enterDelivered => exact frames_setFrames_ne (Ne.symm hmiss) _
  | enterFault => exact frames_setFrames_ne (Ne.symm hmiss) _
  | next => exact frames_setFrames_ne (Ne.symm (beq_eq_false_iff_ne.mp hother)) _
  | reset => exact frames_setFrames_ne (Ne.symm (beq_eq_false_iff_ne.mp hother)) _
  | kill =>
    rw [frames_send]
    exact frames_setFrames_ne (Ne.symm (beq_eq_false_iff_ne.mp hother)) _
  | ret => exact frames_setFrames_ne (Ne.symm (beq_eq_false_iff_ne.mp hother)) _

theorem foldl_ended (hended : s.running = false) (as : List (Action Thread Signal)) :
    as.foldl (step (failureSignalHandler report)) s = s := by
  induction as with
  | nil => rfl
  | cons a as ih => rw [List.foldl_cons, step_ended hended, ih]

/-- If the thread that makes the report is not interrupted, the process ends after a number of its turns, whatever the
    other threads do. -/
theorem ends_of_turns (h : Reaches (step (failureSignalHandler report)) Any (start mask) s)
    (hframes : s.frames t = f :: rest)
    (hd : f.point.dumps = true) (as : List (Action Thread Signal)) (hmiss : ∀ a ∈ as, Misses t a)
    (hturns : f.point.left ≤ as.countP (isTurn t)) : (as.foldl (step (failureSignalHandler report)) s).running = false := by
  have hs := orderly_of_reaches h
  clear h
  induction as generalizing s f with
  | nil =>
    exact absurd hturns (Nat.not_le.mpr (Point.left_pos hd))
  | cons a as ih =>
    have hmiss' : ∀ b ∈ as, Misses t b := fun b hb => hmiss b (List.mem_cons_of_mem a hb)
    have hs' : Orderly report (step (failureSignalHandler report) s a) := hs.of_step (step_step a)
    rw [List.foldl_cons]
    cases hrunning : s.running with
    | false =>
      rw [step_ended hrunning, foldl_ended hrunning]
      exact hrunning
    | true =>
      by_cases hturn : isTurn t a = true
      · obtain rfl : a = .run t := by
          cases a with
          | run u => rw [eq_of_beq hturn]
          | send => cases hturn
          | deliver => cases hturn
          | fault => cases hturn
          | setMask => cases hturn
        rw [List.countP_cons_of_pos hturn] at hturns
        rcases turn hs hrunning hframes hd with hended | ⟨g, hg, hgd, hleft⟩
        · rw [foldl_ended hended]
          exact hended
        · exact ih hg hgd hmiss' (by omega) hs'
      · rw [List.countP_cons_of_neg hturn] at hturns
        refine ih ?_ hd hmiss' hturns hs'
        rw [frames_of_misses (hmiss a List.mem_cons_self) (Bool.not_eq_true _ ▸ hturn) (step_step a)]
        exact hframes

theorem ends_of_turns_sample :
    ((List.replicate 6 (Signals.Action.run false)).foldl (step (failureSignalHandler sampleReport))
      (sampleRun [.fault false true, .run false])).running = false := by
  refine ends_of_turns (t := false) (f := ⟨true, .write [['*']]⟩) (reaches_sampleRun _) rfl rfl _ ?_ (by decide)
  intro a ha
  rw [List.eq_of_mem_replicate ha]
  trivial

/-! ### The process hangs -/

/-- No signal is raised in a thread that blocks it, and a thread that is in no call of the handler goes on blocking them. -/
def Quiet (s : State Thread Signal (Crash Thread) Point) : Action Thread Signal → Prop
  | .send _ | .deliver _ _ | .run _ => True
  | .fault t sig => s.blocks t sig = false
  | .setMask t mask => s.frames t = [] → ∀ sig, mask sig = true

/-- The thread that makes the report is interrupted, and the other threads take no signal. -/
structure Interrupted (s : State Thread Signal (Crash Thread) Point) (t : Thread) : Prop where
  running : s.running = true
  entered : s.shared.entered = some t
  top : ∃ f rest, s.frames t = f :: rest ∧ f.point.dumps = false
  masked : ∀ u, u ≠ t → ∀ sig, s.mask u sig = true

omit [DecidableEq Signal] in
/-- A call that does not make the report changes nothing. -/
theorem exec_next_waiting {point behind : Point} {crash shared : Crash Thread} (hentered : crash.entered = some u)
    (hd : point.dumps = false) (hexec : (failureSignalHandler report).exec t sig point crash = .next shared behind) :
    behind.dumps = false ∧ shared = crash := by
  cases point with
  | entry =>
    unfold failureSignalHandler at hexec
    dsimp only at hexec
    rw [hentered] at hexec
    cases hexec
    exact ⟨rfl, rfl⟩
  | compare =>
    cases hexec
    refine ⟨?_, rfl⟩
    split <;> rfl
  | sleep =>
    cases hexec
    exact ⟨rfl, rfl⟩
  | write => cases hd
  | flush => cases hd
  | reset => cases hexec
  | kill => cases hexec
  | leave => cases hexec

theorem Interrupted.of_step (hi : Interrupted s t) (hs : Orderly report s) (hquiet : Quiet s a)
    (hstep : Step (failureSignalHandler report) s a s') : Interrupted s' t ∧ s'.shared.written = s.shared.written := by
  obtain ⟨f, rest, hframes, hd⟩ := hi.top
  -- Only the interrupted thread can take a signal, or goes on.
  have hopen : ∀ {u : Thread} {sig : Signal}, s.blocks u sig = false → u = t := by
    intro u sig hblocks
    by_contra hne
    cases (hi.masked u hne sig).symm.trans (blocks_eq_false.mp hblocks).1
  -- What it can take is handled: a signal that is reset is the one of a call that it is in.
  have hhandled : ∀ {u : Thread} {sig : Signal}, s.blocks u sig = false → s.disposition sig ≠ .default := by
    intro u sig hblocks hdefault
    obtain rfl := hopen hblocks
    obtain ⟨v, hv, g, hg, hsig⟩ := hs.defaulted _ hdefault
    obtain rfl := Option.some.inj (hv.symm.trans hi.entered)
    exact (blocks_eq_false.mp hblocks).2 g hg hsig
  have hgoes : ∀ {u : Thread} {g : Frame Signal Point} {gs : List (Frame Signal Point)}, s.frames u = g :: gs → u = t := by
    intro u g gs hg
    by_contra hne
    have hunmasked := hs.sound.unmasked u g (hg ▸ List.mem_cons_self)
    cases (hi.masked u hne g.signal).symm.trans hunmasked
  cases hstep with
  | stay => exact ⟨hi, rfl⟩
  | endDelivered hblocks hdefault => exact absurd hdefault (hhandled hblocks)
  | endFault hend =>
    rcases hend with hblocked | hdefault
    · cases hblocked.symm.trans hquiet
    · exact absurd hdefault (hhandled hquiet)
  | endReturn hold hret =>
    obtain rfl := hgoes hold
    rw [hframes] at hold
    cases hold
    rw [exec_ret hret] at hd
    cases hd
  | send =>
    refine ⟨⟨?_, ?_, ⟨f, rest, ?_, hd⟩, ?_⟩, ?_⟩
    · rw [running_send]
      exact hi.running
    · rw [shared_send]
      exact hi.entered
    · rw [frames_send]
      exact hframes
    · rw [mask_send]
      exact hi.masked
    · rw [shared_send]
  | @setMask v mask hnone =>
    refine ⟨⟨hi.running, hi.entered, ⟨f, rest, hframes, hd⟩, fun u hne sig => ?_⟩, rfl⟩
    rcases eq_or_ne u v with rfl | hother
    · dsimp only
      rw [Function.update_self]
      exact hquiet hnone sig
    · dsimp only
      rw [Function.update_of_ne hother]
      exact hi.masked u hne sig
  | enterDelivered hblocks hhandler =>
    obtain rfl := hopen hblocks
    exact ⟨⟨hi.running, hi.entered, ⟨_, _, frames_setFrames_self _, rfl⟩, hi.masked⟩, rfl⟩
  | enterFault hblocks hhandler =>
    obtain rfl := hopen hblocks
    exact ⟨⟨hi.running, hi.entered, ⟨_, _, frames_setFrames_self _, rfl⟩, hi.masked⟩, rfl⟩
  | next hold hexec =>
    obtain rfl := hgoes hold
    rw [hframes] at hold
    cases hold
    obtain ⟨hbehind, rfl⟩ := exec_next_waiting hi.entered hd hexec
    exact ⟨⟨hi.running, hi.entered, ⟨_, _, frames_setFrames_self _, hbehind⟩, hi.masked⟩, rfl⟩
  | reset hold hexec =>
    obtain rfl := hgoes hold
    rw [hframes] at hold
    cases hold
    obtain ⟨again, hpoint, rfl⟩ := exec_reset hexec
    rw [hpoint] at hd
    cases again with
    | true => exact ⟨⟨hi.running, hi.entered, ⟨_, _, frames_setFrames_self _, rfl⟩, hi.masked⟩, rfl⟩
    | false => cases hd
  | kill hold hexec =>
    obtain rfl := hgoes hold
    rw [hframes] at hold
    cases hold
    obtain ⟨again, hpoint, rfl⟩ := exec_kill hexec
    rw [hpoint] at hd
    cases again with
    | true =>
      refine ⟨⟨?_, ?_, ⟨⟨f.signal, .sleep⟩, rest, ?_, rfl⟩, ?_⟩, ?_⟩
      · rw [running_send]
        exact hi.running
      · rw [shared_send]
        exact hi.entered
      · rw [frames_send]
        exact frames_setFrames_self _
      · rw [mask_send]
        exact hi.masked
      · rw [shared_send]
        rfl
    | false => cases hd
  | ret hold hexec hreturns =>
    rw [hs.endsIn hold hexec] at hreturns
    cases hreturns

/-- When the thread that makes the report is interrupted by a signal and the other threads block the signals, the process
    neither ends nor goes on with the report, although it is sent any of the signals any number of times. -/
theorem hangs (h : Reaches (step (failureSignalHandler report)) Any (start mask) s) (hi : Interrupted s t)
    (h' : Reaches (step (failureSignalHandler report)) Quiet s s') :
    s'.running = true ∧ s'.shared.written = s.shared.written := by
  have hkept : Orderly report s' ∧ Interrupted s' t ∧ s'.shared.written = s.shared.written := by
    refine h'.invariant (I := fun s' => Orderly report s' ∧ Interrupted s' t ∧ s'.shared.written = s.shared.written)
      ⟨orderly_of_reaches h, hi, rfl⟩ fun u a hu hquiet => ?_
    obtain ⟨hs, hint, hwritten⟩ := hu
    obtain ⟨hint', hsame⟩ := hint.of_step hs hquiet (step_step a)
    exact ⟨hs.of_step (step_step a), hint', hsame.trans hwritten⟩
  exact ⟨hkept.2.1.running, hkept.2.2⟩

theorem hangs_sample : (sampleRun [.fault false true, .run false, .fault false false, .run false]).running = true ∧
    (sampleRun [.fault false true, .run false, .fault false false, .run false]).shared.written = [] := by
  have hi : Interrupted (sampleRun [.fault false true, .run false, .fault false false]) false :=
    ⟨rfl, rfl, ⟨_, _, rfl, rfl⟩, fun u hu _ => (Bool.not_eq_false u).mp hu⟩
  exact hangs (reaches_sampleRun _) hi (Reaches.start.next (Signals.Action.run false) trivial)

end

end Glog.Signalhandler
