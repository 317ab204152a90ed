import Glog.Sinks.Callback

/-! # Waiting for what has been sent

`WaitForSinks` reads the list again. What a `Flush` has sent to is waited for if it is still there when the last
`WaitForSinks` takes the lock. -/

namespace Glog.LogSink
open LogFile LogMessage Run

/-- The last section is the last `WaitForSinks`, and only this one is. -/
def EndsWithWait : List Section → Prop
  | [] => True
  | [sec] => sec = .waitForSinks true
  | sec :: sec' :: todo => sec ≠ .waitForSinks true ∧ EndsWithWait (sec' :: todo)

theorem endsWithWait_plan (flags : Flags) (d : LogMessageData) : EndsWithWait (plan flags d) := by
  unfold plan
  split
  · split
    · exact ⟨nofun, nofun, rfl⟩
    · exact ⟨nofun, rfl⟩
  · rfl

theorem EndsWithWait.tail {sec : Section} {todo : List Section} (h : EndsWithWait (sec :: todo)) :
    EndsWithWait todo ∧ (todo = [] ↔ sec = .waitForSinks true) := by
  cases todo with
  | nil => exact ⟨trivial, fun _ => h, fun _ => rfl⟩
  | cons sec' todo => exact ⟨h.2, fun hc => absurd hc (List.cons_ne_nil _ _), fun hc => absurd hc h.1⟩

section
variable {Thread Sink : Type}

/-- In a section that is the last one only the sinks that are left are pending; behind it there are none. -/
def Waits (sinks pending : List Sink) : Phase Sink → Prop
  | .idle | .stale => True
  | .flush todo => EndsWithWait todo ∧ (todo = [] → pending = [])
  | .visit sec todo i | .call sec todo i _ =>
    EndsWithWait (sec :: todo) ∧ (sec = .waitForSinks true → ∀ s ∈ pending, s ∈ sinks.take i)

/-- The state in which every `Flush` waits. -/
def Waiting (σ : State Thread Sink) : Prop := ∀ t, Waits σ.sinks (σ.pending t) (σ.phase t)

/-- A `Flush` takes the lock for its last `WaitForSinks` only if all that it has sent to and not waited for is in the
    list. -/
def StillRegistered (σ : State Thread Sink) (a : Action Thread Sink) : Prop :=
  ∀ t, a = .advance t → σ.phase t = .flush [.waitForSinks true] → ∀ s ∈ σ.pending t, s ∈ σ.sinks

/-- No sink is removed that a `Flush` has sent to and not waited for. -/
def NotRemovedBefore (σ : State Thread Sink) (a : Action Thread Sink) : Prop :=
  ∀ sink, a = .removeLogSink sink → ∀ t, sink ∉ σ.pending t

end

section
variable {Thread Sink : Type} [DecidableEq Thread] {σ σ' : State Thread Sink} {t : Thread} {sink : Sink}

namespace Waiting

omit [DecidableEq Thread] in
theorem start : Waiting (LogSink.start Thread Sink) := fun _ => trivial

theorem thread (h : Waiting σ) {p : Phase Sink} (hlocal : Local t σ σ' p) (hwaits : Waits σ.sinks (σ'.pending t) p) :
    Waiting σ' := by
  intro u
  rw [hlocal.sinks]
  by_cases hu : u = t
  · subst hu
    rw [hlocal.phase_self]
    exact hwaits
  · rw [hlocal.phase_ne hu, hlocal.pending u hu]
    exact h u

omit [DecidableEq Thread] in
/-- Outside of the sections the list does not matter. -/
theorem sinks (h : Waiting σ) (hsound : Sound σ) (hfree : σ.readers = []) (sinks : List Sink)
    (history : List (Change Sink)) :
    Waiting { σ with sinks := sinks, history := history } := by
  intro t
  have hwaits := h t
  have hplaced := hsound.placed t
  rw [hfree] at hplaced
  dsimp only
  cases hphase : σ.phase t with
  | idle => exact trivial
  | stale => exact trivial
  | flush todo =>
    rw [hphase] at hwaits
    exact hwaits
  | visit sec todo i =>
    rw [hphase] at hplaced
    exact absurd hplaced.1 List.not_mem_nil
  | call sec todo i sink =>
    rw [hphase] at hplaced
    exact absurd hplaced.1 List.not_mem_nil

theorem flush (h : Waiting σ) (t : Thread) (flags : Flags) (d : LogMessageData) : Waiting (flush t flags d σ) := by
  unfold LogSink.flush
  split
  · split
    · refine h.thread ((Local.setPhase t _ σ).note []) ⟨endsWithWait_plan flags d, fun _ => ?_⟩
      exact Function.update_self t [] σ.pending
    · exact h
  · exact h

theorem unwind_release (h : Waiting σ) (t : Thread) (sec : Section) : Waiting ((unwind t sec σ).release t) := by
  unfold unwind
  split
  · exact h.thread (Local.leave t σ).release trivial
  · exact h.thread (Local.setPhase t _ σ).release ⟨rfl, fun hc => absurd hc (List.cons_ne_nil _ _)⟩

theorem throw (h : Waiting σ) (t : Thread) : Waiting (throw t σ) := by
  unfold LogSink.throw
  split
  · exact h.unwind_release t _
  · exact h.unwind_release t _
  · split
    · exact h
    · exact h.thread (.setPhase t _ σ) ⟨rfl, fun hc => absurd hc (List.cons_ne_nil _ _)⟩
  · exact h

variable [DecidableEq Sink]

/-- A call of `WaitTillSent` leaves what is before the sink in the list. -/
theorem mem_take_of_note {sinks pending : List Sink} {i : Nat} {s : Sink} (hsome : sinks[i]? = some sink)
    (hpending : ∀ s ∈ pending, s ∈ sinks.take (i + 1)) (hs : s ∈ Section.note sink pending (.waitForSinks true)) :
    s ∈ sinks.take i := by
  obtain ⟨hmem, hne⟩ := List.mem_filter.mp hs
  have htake := hpending s hmem
  rw [List.take_add_one, hsome, List.mem_append] at htake
  rcases htake with hbefore | hlast
  · exact hbefore
  · rw [Option.toList_some, List.mem_singleton] at hlast
    rw [hlast] at hne
    simp at hne

theorem advance (h : Waiting σ) (t : Thread)
    (hregistered : σ.phase t = .flush [.waitForSinks true] → ∀ s ∈ σ.pending t, s ∈ σ.sinks) : Waiting (advance t σ) := by
  have hwaits := h t
  unfold LogSink.advance
  split
  · exact h
  · exact h
  · exact h.thread (.leave t σ) trivial
  · rename_i sec todo hphase
    rw [hphase] at hwaits
    refine h.thread (Local.setPhase t _ σ).acquire ⟨hwaits.1, fun hlast s hs => ?_⟩
    -- the lock is taken for the last wait
    have htodo : todo = [] := hwaits.1.tail.2.mpr hlast
    rw [hlast, htodo] at hphase
    rw [List.take_length]
    exact hregistered hphase s hs
  · rename_i sec todo hphase
    rw [hphase] at hwaits
    obtain ⟨hends, hleft⟩ := hwaits
    refine h.thread (Local.setPhase t _ σ).release ⟨hends.tail.1, fun htodo => ?_⟩
    refine List.eq_nil_iff_forall_not_mem.mpr fun s hs => ?_
    have hnone := hleft (hends.tail.2.mp htodo) s hs
    rw [List.take_zero] at hnone
    cases hnone
  · rename_i sec todo i hphase
    rw [hphase] at hwaits
    obtain ⟨hends, hleft⟩ := hwaits
    split
    · exact h.thread (.setPhase t _ σ) trivial
    · rename_i sink hsome
      refine h.thread ((Local.setPhase t _ σ).note _) ⟨hends, fun hlast s hs => ?_⟩
      dsimp only at hs
      rw [Function.update_self, hlast] at hs
      exact mem_take_of_note hsome (hleft hlast) hs
  · rename_i sec todo i sink hphase
    rw [hphase] at hwaits
    exact h.thread (.setPhase t _ σ) hwaits

theorem step (h : Waiting σ) (hsound : Sound σ) {a : Action Thread Sink} (hregistered : StillRegistered σ a) :
    Waiting (step σ a) := by
  cases a with
  | addLogSink sink =>
    change Waiting (addLogSink sink σ)
    unfold addLogSink
    split
    · rename_i hfree
      exact h.sinks hsound hfree _ _
    · exact h
  | removeLogSink sink =>
    change Waiting (removeLogSink sink σ)
    unfold removeLogSink
    split
    · rename_i hfree
      exact h.sinks hsound hfree _ _
    · exact h
  | flush t flags d => exact h.flush t flags d
  | advance t => exact h.advance t (hregistered t rfl)
  | throw t => exact h.throw t

end Waiting

variable [DecidableEq Sink]

theorem waiting_of_run (h : Reaches step StillRegistered (start Thread Sink) σ) : Waiting σ := by
  have hboth := Reaches.invariant (I := fun σ : State Thread Sink => Sound σ ∧ Waiting σ) h ⟨sound_start, .start⟩
    fun _ a hσ hok => ⟨hσ.1.step a, hσ.2.step hσ.1 hok⟩
  exact hboth.2

/-- When a `Flush` gets to its return, each of its calls of `send` has been followed by one of `WaitTillSent`, if what it
    had sent to was in the list whenever one took the lock for the last wait. -/
theorem pending_of_run (h : Reaches step StillRegistered (start Thread Sink) σ) (ht : σ.phase t = .flush []) :
    σ.pending t = [] := by
  have hwaits := waiting_of_run h t
  rw [ht] at hwaits
  exact hwaits.2 rfl

/-- One thread sends to a sink that is registered all the time. -/
theorem pending_of_run_once : ∃ σ : State Unit Nat, σ.phase () = .flush [] ∧ σ.history.length = 1 ∧ σ.pending () = [] := by
  have hadded := (@Reaches.start _ _ step StillRegistered (start Unit Nat)).next (.addLogSink 7) fun t ha => nomatch ha
  have hflush := hadded.next (.flush () plainFlags (plainMessage .info ['a'])) fun t ha => nomatch ha
  have hsection := hflush.next (.advance ()) fun t _ hphase => nomatch hphase
  have hcall := hsection.next (.advance ()) fun t _ hphase => nomatch hphase
  have hsent := hcall.next (.advance ()) fun t _ hphase => nomatch hphase
  have hleft := hsent.next (.advance ()) fun t _ hphase => nomatch hphase
  have hwaits := hleft.next (.advance ()) fun t _ _ s hs => hs
  have hwait := hwaits.next (.advance ()) fun t _ hphase => nomatch hphase
  have hwaited := hwait.next (.advance ()) fun t _ hphase => nomatch hphase
  have hreturns := hwaited.next (.advance ()) fun t _ hphase => nomatch hphase
  exact ⟨_, rfl, rfl, pending_of_run hreturns rfl⟩

/-- Another thread removes the sink between the two sections. -/
theorem not_pending_of_run : ∃ σ : State Unit Nat,
    Reaches step (fun _ _ => True) (start Unit Nat) σ ∧ σ.phase () = .flush [] ∧ σ.pending () ≠ [] := by
  let actions : List (Action Unit Nat) := [.addLogSink 7, .flush () plainFlags (plainMessage .info ['a']),
    .advance (), .advance (), .advance (), .advance (), .removeLogSink 7, .advance (), .advance ()]
  exact ⟨actions.foldl step (start Unit Nat), Reaches.foldl fun _ _ _ => trivial, rfl, List.cons_ne_nil 7 []⟩

/-! ### Removals -/

/-- What a `Flush` has still to wait for is in the list. -/
def Registered (σ : State Thread Sink) : Prop := ∀ t, ∀ s ∈ σ.pending t, s ∈ σ.sinks

omit [DecidableEq Sink] in
theorem Registered.thread (h : Registered σ) {p : Phase Sink} (hlocal : Local t σ σ' p)
    (hpending : ∀ s ∈ σ'.pending t, s ∈ σ.sinks) : Registered σ' := by
  intro u s hs
  rw [hlocal.sinks]
  by_cases hu : u = t
  · subst hu
    exact hpending s hs
  · rw [hlocal.pending u hu] at hs
    exact h u s hs

omit [DecidableEq Sink] in
theorem Registered.leave (h : Registered σ) (t : Thread) : Registered (σ.leave t) := by
  refine h.thread (.leave t σ) fun s hs => ?_
  change s ∈ Function.update σ.pending t [] t at hs
  rw [Function.update_self] at hs
  cases hs

omit [DecidableEq Sink] in
theorem Registered.unwind (h : Registered σ) (t : Thread) (sec : Section) : Registered (unwind t sec σ) := by
  unfold LogSink.unwind
  split
  · exact h.leave t
  · exact h

theorem Registered.advance (h : Registered σ) (t : Thread) : Registered (advance t σ) := by
  unfold LogSink.advance
  split
  · exact h
  · exact h
  · exact h.leave t
  · exact h
  · exact h
  · rename_i sec todo i _
    split
    · exact h
    · rename_i sink hsome
      refine h.thread ((Local.setPhase t _ σ).note _) fun s hs => ?_
      dsimp only at hs
      rw [Function.update_self] at hs
      cases sec with
      | logToSinks =>
        rcases List.mem_cons.mp hs with rfl | hold
        · exact List.mem_of_getElem? hsome
        · exact h t s hold
      | waitForSinks last => exact h t s (List.mem_filter.mp hs).1
  · exact h

theorem Registered.step (h : Registered σ) {a : Action Thread Sink} (hok : NotRemovedBefore σ a) :
    Registered (step σ a) := by
  cases a with
  | addLogSink sink =>
    change Registered (addLogSink sink σ)
    unfold addLogSink
    split
    · exact fun t s hs => List.mem_append_left _ (h t s hs)
    · exact h
  | removeLogSink sink =>
    change Registered (removeLogSink sink σ)
    unfold removeLogSink
    split
    · refine fun t s hs => List.mem_filter.mpr ⟨h t s hs, bne_iff_ne.mpr fun heq => ?_⟩
      rw [heq] at hs
      exact hok sink rfl t hs
    · exact h
  | flush t flags d =>
    change Registered (flush t flags d σ)
    unfold LogSink.flush
    split
    · split
      · refine h.thread ((Local.setPhase t _ σ).note []) fun s hs => ?_
        dsimp only at hs
        rw [Function.update_self] at hs
        cases hs
      · exact h
    · exact h
  | advance t => exact h.advance t
  | throw t =>
    change Registered (throw t σ)
    unfold LogSink.throw
    split
    · exact h.unwind t _
    · exact h.unwind t _
    · split
      · exact h
      · exact h
    · exact h

/-- Where no sink is removed between a `send` and the wait for it, all are in the list whenever a `Flush` waits. -/
theorem stillRegistered_of_notRemoved (h : Reaches step NotRemovedBefore (start Thread Sink) σ) :
    Registered σ ∧ Reaches step StillRegistered (start Thread Sink) σ := by
  induction h with
  | start => exact ⟨fun _ _ hs => absurd hs List.not_mem_nil, .start⟩
  | next a _ hok ih => exact ⟨ih.1.step hok, ih.2.next a fun t _ _ => ih.1 t⟩

/-! ### The condition -/

/-- What is left to wait for, in the last `WaitForSinks` of a thread that has taken the lock for it in the first state. -/
def Left (t : Thread) (σ σ' : State Thread Sink) : Prop :=
  match σ'.phase t with
  | .visit (.waitForSinks true) [] i | .call (.waitForSinks true) [] i _ =>
    σ'.sinks = σ.sinks ∧ ∀ s, s ∈ σ'.pending t ↔ s ∈ σ.pending t ∧ s ∉ σ.sinks.drop i
  | .flush [] => ∀ s, s ∈ σ'.pending t ↔ s ∈ σ.pending t ∧ s ∉ σ.sinks
  | _ => False

omit [DecidableEq Thread] [DecidableEq Sink] in
theorem Left.congr {σ'' : State Thread Sink} (h : Left t σ σ') (hsinks : σ''.sinks = σ'.sinks)
    (hphase : σ''.phase t = σ'.phase t) (hpending : σ''.pending t = σ'.pending t) : Left t σ σ'' := by
  unfold Left
  rw [hsinks, hphase, hpending]
  exact h

omit [DecidableEq Sink] in
theorem Left.of_other {u : Thread} (h : Left t σ σ') (hne : u ≠ t) {σ'' : State Thread Sink}
    (hlocal : σ'' = σ' ∨ ∃ p, Local u σ' σ'' p) : Left t σ σ'' := by
  rcases hlocal with rfl | ⟨p, hlocal⟩
  · exact h
  · exact h.congr hlocal.sinks (hlocal.phase_ne hne.symm) (hlocal.pending t hne.symm)

theorem Left.advance (h : Left t σ σ') (hnot : σ'.phase t ≠ .flush []) (hsound : Sound σ') : Left t σ (advance t σ') := by
  have hplaced := hsound.placed t
  unfold Left at h
  unfold LogSink.advance
  split at h
  · rename_i i hphase
    obtain ⟨hsinks, hpending⟩ := h
    rw [hphase] at hplaced ⊢
    cases i with
    | zero =>
      dsimp only
      unfold Left
      rw [((Local.setPhase t _ σ').release).phase_self]
      exact hpending
    | succ i =>
      dsimp only
      have hlt : i < σ'.sinks.length := hplaced.2
      rw [List.getElem?_eq_getElem hlt]
      unfold Left
      dsimp only
      have hlocal := (Local.setPhase t (.call (.waitForSinks true) [] i σ'.sinks[i]) σ').note
        (Section.note σ'.sinks[i] (σ'.pending t) (.waitForSinks true))
      rw [hlocal.phase_self]
      refine ⟨hsinks, fun s => ?_⟩
      rw [Function.update_self, Section.note, List.mem_filter, hpending, bne_iff_ne, ← hsinks,
        List.drop_eq_getElem_cons hlt, List.mem_cons, not_or]
      exact ⟨fun hs => ⟨hs.1.1, hs.2, hs.1.2⟩, fun hs => ⟨⟨hs.1, hs.2.2⟩, hs.2.1⟩⟩
  · rename_i i sink hphase
    rw [hphase]
    dsimp only
    unfold Left
    rw [(Local.setPhase t _ σ').phase_self]
    exact h
  · rename_i hphase
    exact absurd hphase hnot
  · exact h.elim

omit [DecidableEq Thread] [DecidableEq Sink] in
/-- The lock is held until the return. -/
theorem Left.busy (h : Left t σ σ') (hsound : Sound σ') (hnot : σ'.phase t ≠ .flush []) : σ'.readers ≠ [] := by
  intro hfree
  have hplaced := hsound.placed t
  rw [hfree] at hplaced
  unfold Left at h
  split at h
  · rename_i hphase
    rw [hphase] at hplaced
    exact absurd hplaced.1 List.not_mem_nil
  · rename_i hphase
    rw [hphase] at hplaced
    exact absurd hplaced.1 List.not_mem_nil
  · rename_i hphase
    exact hnot hphase
  · exact h

theorem Left.step (h : Left t σ σ') (hsound : Sound σ') {a : Action Thread Sink}
    (hok : a ≠ .throw t ∧ σ'.phase t ≠ .flush []) : Left t σ (step σ' a) := by
  have hbusy : σ'.readers ≠ [] := h.busy hsound hok.2
  cases a with
  | addLogSink sink =>
    change Left t σ (addLogSink sink σ')
    rw [addLogSink, if_neg hbusy]
    exact h
  | removeLogSink sink =>
    change Left t σ (removeLogSink sink σ')
    rw [removeLogSink, if_neg hbusy]
    exact h
  | flush u flags d =>
    by_cases hu : u = t
    · subst hu
      change Left u σ (flush u flags d σ')
      unfold LogSink.flush
      split
      · rename_i hphase
        unfold Left at h
        rw [hphase] at h
        exact h.elim
      · exact h
    · exact h.of_other hu (Local.flush u flags d σ')
  | advance u =>
    by_cases hu : u = t
    · subst hu
      exact h.advance hok.2 hsound
    · exact h.of_other hu (Local.advance u σ')
  | throw u =>
    have hu : u ≠ t := fun heq => hok.1 (congrArg Action.throw heq)
    exact h.of_other hu (Local.throw u σ')

/-- A `Flush` that has taken the lock for its last wait, and gets to its return, has waited for all if and only if all
    were in the list then. -/
theorem pending_iff_registered (hσ : Reaches step (fun _ _ => True) (start Thread Sink) σ)
    (ht : σ.phase t = .flush [.waitForSinks true])
    (hrun : Reaches step (fun σ a => a ≠ .throw t ∧ σ.phase t ≠ .flush []) (advance t σ) σ')
    (hend : σ'.phase t = .flush []) :
    σ'.pending t = [] ↔ ∀ s ∈ σ.pending t, s ∈ σ.sinks := by
  have hentered : Left t σ (advance t σ) := by
    unfold LogSink.advance
    rw [ht]
    dsimp only
    unfold Left
    rw [((Local.setPhase t _ σ).acquire).phase_self]
    refine ⟨rfl, fun s => ?_⟩
    rw [List.drop_length]
    exact ⟨fun hs => ⟨hs, List.not_mem_nil⟩, fun hs => hs.1⟩
  have hboth := Reaches.invariant (I := fun σ' => Sound σ' ∧ Left t σ σ') hrun ⟨(sound_of_run hσ).advance t, hentered⟩
    fun _ a hinv hok => ⟨hinv.1.step a, hinv.2.step hinv.1 hok⟩
  have hleft := hboth.2
  unfold Left at hleft
  rw [hend] at hleft
  rw [List.eq_nil_iff_forall_not_mem]
  constructor
  · intro hnone s hs
    exact Classical.byContradiction fun hnot => hnone s ((hleft s).mpr ⟨hs, hnot⟩)
  · intro hall s hs
    obtain ⟨hsent, hnot⟩ := (hleft s).mp hs
    exact hnot (hall s hsent)

end

end Glog.LogSink
