import Glog.Message.Flush

/-! # The mutex of the log

`Flush` holds `log_mutex` through a `MutexLock`, whose destructor releases it, while `SendToLog` releases it by hand
when the message is meant to end the program. -/

namespace Glog.LogMessage
open LogFile Run

/-- What an event does to `log_mutex`; it guards `num_messages_`. -/
def Event.mutexOp : Event → Option MutexOp
  | .lock => some .acquire
  | .unlock => some .release
  | .count => some .use
  | _ => none

def Quiet (l : List Event) : Prop := Every (fun e => e.mutexOp = none) l

theorem Part.quiet {d : LogMessageData} {e : Event} (h : Part d e) : e.mutexOp = none := by
  cases h <;> rfl

theorem quiet_of_part {d : LogMessageData} {l : List Event} (h : Every (Part d) l) : Quiet l := h.mono fun _ => Part.quiet

/-! ### The discipline -/

section
variable {flags : Flags} {throws : Event → Bool} {d : LogMessageData}

/-- The mutex is released by hand: nothing throws before. -/
structure Releases (flags : Flags) (throws : Event → Bool) (d : LogMessageData) : Prop where
  calls : callsSendToLog d = true
  fatal : isFatal flags d = true
  returns : ∀ e ∈ beforeUnlock flags d, e.stops throws = false

theorem quiet_perform (h : ¬ Releases flags throws d) : Quiet (perform throws (send flags d)).1 := by
  by_cases hsends : callsSendToLog d = true ∧ isFatal flags d = true
  · have hthrown : ∃ e ∈ beforeUnlock flags d, e.stops throws = true := by
      refine Classical.byContradiction fun hnone => h ⟨hsends.1, hsends.2, fun e he => ?_⟩
      exact Bool.eq_false_iff.mpr fun hstops => hnone ⟨e, he, hstops⟩
    rw [send_eq_of_fatal hsends.1 hsends.2, perform, upTo_append_of_stops hthrown]
    exact (quiet_of_part part_beforeUnlock).of_subset fun e he => mem_of_upTo he
  · exact (quiet_of_part (part_send hsends)).of_subset fun e he => mem_of_upTo he

/-- Where the method releases the mutex, the count that follows is not guarded. -/
theorem hold_locked_of_releases (h : Releases flags throws (edited d)) :
    hold Event.mutexOp (locked flags throws d) false = none := by
  have hreleased : hold Event.mutexOp (perform throws (send flags (edited d))).1 true = some false := by
    rw [send_eq_of_fatal h.calls h.fatal, perform, upTo_append h.returns, hold_append,
      hold_quiet (quiet_of_part part_beforeUnlock)]
    have hrest : Quiet (upTo (Event.stops throws) (waitForSinks flags (edited d) false ++ [.stackTrace])).1 :=
      (quiet_of_part (part_waitForSinks.append (every_singleton .stackTrace))).of_subset fun e he => mem_of_upTo he
    exact hold_quiet hrest
  change hold Event.mutexOp (_ ++ [.count, .unlock]) true = none
  rw [hold_append, hreleased]
  rfl

theorem hold_locked_of_quiet (h : ¬ Releases flags throws (edited d)) :
    hold Event.mutexOp (locked flags throws d) false = some false := by
  change hold Event.mutexOp (_ ++ [.count, .unlock]) true = some false
  rw [hold_append, hold_quiet (quiet_perform h)]
  rfl

theorem Quiet.access {l : List Event} (h : Quiet l) (i : Nat) : Quiet (.access i :: l) := by
  intro e he
  rcases List.mem_cons.mp he with rfl | hmem
  · rfl
  · exact h e hmem

theorem quiet_nil : Quiet [] := every_nil

theorem quiet_editAccesses : Quiet (editAccesses d) := by
  unfold editAccesses
  split
  · exact (((quiet_nil.access _).access _).access _).access _
  · exact (quiet_nil.access _).access _

theorem quiet_undoAccesses : Quiet (undoAccesses d) := every_ite (quiet_nil.access _) quiet_nil

/-- What the last wait and the end of `Flush` do. -/
theorem quiet_end {c : Prop} [Decidable c] : Quiet ((perform throws (waitForSinks flags (edited d) true)).1 ++
    if c then [] else undoAccesses d) := by
  have hwait : Quiet (perform throws (waitForSinks flags (edited d) true)).1 :=
    (quiet_of_part part_waitForSinks).of_subset fun e he => mem_of_upTo he
  exact hwait.append (every_ite every_nil quiet_undoAccesses)

theorem hold_flush_of_releases (hdue : isDue flags d = true) (h : Releases flags throws (edited d)) :
    hold Event.mutexOp (flush flags throws d).events false = none := by
  rw [flush, if_pos hdue]
  dsimp only
  rw [hold_append, hold_quiet quiet_editAccesses, Option.bind_some, hold_append, hold_locked_of_releases h,
    Option.bind_none]

theorem hold_flush_of_not (h : ¬ (isDue flags d = true ∧ Releases flags throws (edited d))) :
    hold Event.mutexOp (flush flags throws d).events false = some false := by
  by_cases hdue : isDue flags d = true
  · rw [flush, if_pos hdue]
    dsimp only
    rw [hold_append, hold_quiet quiet_editAccesses, Option.bind_some, hold_append,
      hold_locked_of_quiet fun hreleases => h ⟨hdue, hreleases⟩, Option.bind_some, hold_quiet quiet_end]
  · rw [flush, if_neg hdue]
    rfl

/-- A `Flush` is balanced unless it sends a message that is meant to end the program, and `SendToLog` comes to
    release the mutex. -/
theorem balanced_flush_iff : Run.Balanced Event.mutexOp (flush flags throws d).events ↔
    ¬ (isDue flags d = true ∧ Releases flags throws (edited d)) := by
  constructor
  · rintro hbalanced ⟨hdue, hreleases⟩
    rw [Run.Balanced, hold_flush_of_releases hdue hreleases] at hbalanced
    cases hbalanced
  · exact hold_flush_of_not

/-- The mutex is used or released when it is not held. -/
def releasesTwice (flags : Flags) (throws : Event → Bool) (d : LogMessageData) : Bool :=
  (hold Event.mutexOp (flush flags throws d).events false).isNone

theorem releasesTwice_iff : releasesTwice flags throws d = true ↔ isDue flags d = true ∧
    Releases flags throws (edited d) := by
  unfold releasesTwice
  by_cases h : isDue flags d = true ∧ Releases flags throws (edited d)
  · rw [hold_flush_of_releases h.1 h.2]
    exact ⟨fun _ => h, fun _ => rfl⟩
  · rw [hold_flush_of_not h]
    exact ⟨nofun, fun hboth => absurd hboth h⟩

/-- A fatal message is counted and released without the mutex. -/
theorem not_balanced_flush : ¬ ∀ (flags : Flags) (throws : Event → Bool) (d : LogMessageData),
    Run.Balanced Event.mutexOp (flush flags throws d).events := fun h => by
  have hfatal : hold Event.mutexOp (flush plainFlags (fun _ => false) (plainMessage .fatal ['a'])).events false =
      some false :=
    h plainFlags (fun _ => false) (plainMessage .fatal ['a'])
  exact absurd hfatal (by decide)

end

end Glog.LogMessage
