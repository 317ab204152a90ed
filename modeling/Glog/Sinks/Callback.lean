import Glog.Sinks.Dispatch

/-! # Calls of registered sinks

While a thread is in a section the list does not change, so its index stays in the list, and the sink that it calls is
registered. A sink that has been removed is not in the list until it is added again. -/

namespace Glog.LogSink
open LogFile LogMessage Run

section
variable {Thread Sink : Type}

/-- The last change of the list that is about the sink has removed it. -/
def Removed (sink : Sink) (history : List (Change Sink)) : Prop :=
  ∃ since before, history = since ++ .remove sink :: before ∧ .add sink ∉ since

/-- A thread is in a call of the sink, `send` or `WaitTillSent`, that it has found in the list. -/
def State.Calling (σ : State Thread Sink) (t : Thread) (sink : Sink) : Prop :=
  ∃ sec todo i, σ.phase t = .call sec todo i sink

/-- In a section a thread holds the lock and its index is in the list, and the sink that it calls is there too. -/
def Placed (sinks : List Sink) (holds : Prop) : Phase Sink → Prop
  | .idle | .flush _ => True
  | .visit _ _ i => holds ∧ i ≤ sinks.length
  | .call _ _ i sink => holds ∧ i ≤ sinks.length ∧ sink ∈ sinks
  | .stale => False

structure Sound (σ : State Thread Sink) : Prop where
  placed : ∀ t, Placed σ.sinks (t ∈ σ.readers) (σ.phase t)
  removed : ∀ sink, Removed sink σ.history → sink ∉ σ.sinks

theorem Placed.mono {sinks : List Sink} {holds holds' : Prop} {p : Phase Sink} (h : Placed sinks holds p)
    (himp : holds → holds') : Placed sinks holds' p := by
  cases p with
  | idle => exact trivial
  | flush todo => exact trivial
  | visit sec todo i => exact ⟨himp h.1, h.2⟩
  | call sec todo i sink => exact ⟨himp h.1, h.2⟩
  | stale => exact h

/-- Without readers all threads are outside of the sections. -/
theorem Placed.of_free {sinks sinks' : List Sink} {t : Thread} {p : Phase Sink}
    (h : Placed sinks (t ∈ ([] : List Thread)) p) :
    Placed sinks' (t ∈ ([] : List Thread)) p := by
  cases p with
  | idle => exact trivial
  | flush todo => exact trivial
  | visit sec todo i => exact absurd h.1 List.not_mem_nil
  | call sec todo i sink => exact absurd h.1 List.not_mem_nil
  | stale => exact h

theorem removed_cons {sink : Sink} {change : Change Sink} {history : List (Change Sink)}
    (h : Removed sink (change :: history)) : change = .remove sink ∨ change ≠ .add sink ∧ Removed sink history := by
  obtain ⟨since, before, heq, hnot⟩ := h
  cases since with
  | nil =>
    cases heq
    exact Or.inl rfl
  | cons c since =>
    cases heq
    rw [List.mem_cons, not_or] at hnot
    exact Or.inr ⟨fun hc => hnot.1 hc.symm, since, before, rfl, hnot.2⟩

end

section
variable {Thread Sink : Type} [DecidableEq Thread] {σ σ' : State Thread Sink} {t : Thread} {sink : Sink}

omit [DecidableEq Thread] in
theorem sound_start : Sound (start Thread Sink) where
  placed _ := trivial
  removed sink h := by
    obtain ⟨since, before, heq, -⟩ := h
    cases since <;> cases heq

namespace Sound

theorem thread (h : Sound σ) {p : Phase Sink} (hlocal : Local t σ σ' p) (hplaced : Placed σ.sinks (t ∈ σ'.readers) p) :
    Sound σ' where
  placed u := by
    rw [hlocal.sinks]
    by_cases hu : u = t
    · subst hu
      rw [hlocal.phase_self]
      exact hplaced
    · rw [hlocal.phase_ne hu]
      exact (h.placed u).mono (hlocal.readers u hu)
  removed sink hremoved := by
    rw [hlocal.sinks]
    rw [hlocal.history] at hremoved
    exact h.removed sink hremoved

omit [DecidableEq Thread] in
theorem addLogSink (h : Sound σ) (sink : Sink) : Sound (addLogSink sink σ) := by
  unfold LogSink.addLogSink
  split
  · rename_i hfree
    refine ⟨fun t => ?_, fun s hremoved hmem => ?_⟩
    · have hplaced := h.placed t
      rw [hfree] at hplaced
      dsimp only
      rw [hfree]
      exact hplaced.of_free
    · rcases removed_cons hremoved with hc | ⟨hne, hremoved⟩
      · cases hc
      · rcases List.mem_append.mp hmem with hold | hnew
        · exact h.removed s hremoved hold
        · rw [List.mem_singleton] at hnew
          exact hne (congrArg Change.add hnew.symm)
  · exact h

variable [DecidableEq Sink]

omit [DecidableEq Thread] in
theorem removeLogSink (h : Sound σ) (sink : Sink) : Sound (removeLogSink sink σ) := by
  unfold LogSink.removeLogSink
  split
  · rename_i hfree
    refine ⟨fun t => ?_, fun s hremoved hmem => ?_⟩
    · have hplaced := h.placed t
      rw [hfree] at hplaced
      dsimp only
      rw [hfree]
      exact hplaced.of_free
    · obtain ⟨hmem, hne⟩ := List.mem_filter.mp hmem
      rcases removed_cons hremoved with hc | ⟨-, hremoved⟩
      · cases hc
        simp at hne
      · exact h.removed s hremoved hmem
  · exact h

omit [DecidableEq Sink] in
theorem flush (h : Sound σ) (t : Thread) (flags : Flags) (d : LogMessageData) : Sound (flush t flags d σ) := by
  unfold LogSink.flush
  split
  · split
    · exact h.thread ((Local.setPhase t _ σ).note []) trivial
    · exact h
  · exact h

theorem advance (h : Sound σ) (t : Thread) : Sound (advance t σ) := by
  have hplaced := h.placed t
  unfold LogSink.advance
  split
  · exact h
  · exact h
  · exact h.thread (.leave t σ) trivial
  · exact h.thread (Local.setPhase t _ σ).acquire ⟨List.mem_cons_self, Nat.le_refl _⟩
  · exact h.thread (Local.setPhase t _ σ).release trivial
  · rename_i sec todo i hphase
    rw [hphase] at hplaced
    obtain ⟨hholds, hle⟩ := hplaced
    split
    · -- the index is in the list
      rename_i hnone
      exact absurd (List.getElem?_eq_none_iff.mp hnone) (Nat.not_le.mpr hle)
    · rename_i sink hsome
      exact h.thread ((Local.setPhase t _ σ).note _) ⟨hholds, Nat.le_of_succ_le hle, List.mem_of_getElem? hsome⟩
  · rename_i sec todo i sink hphase
    rw [hphase] at hplaced
    exact h.thread (.setPhase t _ σ) ⟨hplaced.1, hplaced.2.1⟩

omit [DecidableEq Sink] in
theorem unwind_release (h : Sound σ) (t : Thread) (sec : Section) : Sound ((unwind t sec σ).release t) := by
  unfold unwind
  split
  · exact h.thread (Local.leave t σ).release trivial
  · exact h.thread (Local.setPhase t _ σ).release trivial

omit [DecidableEq Sink] in
theorem throw (h : Sound σ) (t : Thread) : Sound (throw t σ) := by
  unfold LogSink.throw
  split
  · exact h.unwind_release t _
  · exact h.unwind_release t _
  · split
    · exact h
    · exact h.thread (.setPhase t _ σ) trivial
  · exact h

theorem step (h : Sound σ) (a : Action Thread Sink) : Sound (step σ a) := by
  cases a with
  | addLogSink sink => exact h.addLogSink sink
  | removeLogSink sink => exact h.removeLogSink sink
  | flush t flags d => exact h.flush t flags d
  | advance t => exact h.advance t
  | throw t => exact h.throw t

end Sound

variable [DecidableEq Sink] {ok : State Thread Sink → Action Thread Sink → Prop}

theorem sound_of_run (h : Reaches step ok (start Thread Sink) σ) : Sound σ :=
  h.invariant sound_start fun _ a hσ _ => hσ.step a

/-- In any run, a sink that has been removed is in no call of a thread until it is added again, and no thread reads behind
    the end of the list. -/
theorem not_calling_of_removed (h : Reaches step (fun _ _ => True) (start Thread Sink) σ) (t : Thread) :
    σ.phase t ≠ .stale ∧ ∀ sink, Removed sink σ.history → ¬ σ.Calling t sink := by
  have hsound := sound_of_run h
  have hplaced := hsound.placed t
  refine ⟨fun hstale => ?_, fun sink hremoved hcalling => ?_⟩
  · rw [hstale] at hplaced
    exact hplaced
  · obtain ⟨sec, todo, i, hphase⟩ := hcalling
    rw [hphase] at hplaced
    exact hsound.removed sink hremoved hplaced.2.2

/-- A sink is added twice and removed, and another one is in a call when it is to be removed as well. -/
def removals : List (Action Unit Nat) :=
  [.addLogSink 7, .addLogSink 7, .removeLogSink 7, .addLogSink 8,
    .flush () plainFlags (plainMessage .info ['a']), .advance (), .advance (), .removeLogSink 8]

theorem not_calling_of_removed_called : (removals.foldl step (start Unit Nat)).Calling () 8 ∧
    ¬ (removals.foldl step (start Unit Nat)).Calling () 7 :=
  ⟨⟨.logToSinks, _, 0, rfl⟩,
    (not_calling_of_removed (Reaches.foldl fun _ _ _ => trivial) ()).2 7 ⟨[.add 8], _, rfl, by simp⟩⟩

end

end Glog.LogSink
