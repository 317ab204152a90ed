import Mathlib.Algebra.GroupWithZero.Nat
import Mathlib.Data.Int.DivMod
import Glog.Run.Guarded

/-! # How often the cleaner scans

`LogCleaner::Run` scans when its due time has come, and then sets the next one. The flag is an `int32`, and so is its
product with a million, which wraps around from 2148 seconds on; the clock and the due time are wide enough.

`scans` is a ghost: the calls that have scanned, the newest first. -/

namespace Glog.LogCleaner
open Run

/-- A value as an `int32`, which wraps around. -/
def int32 (x : Int) : Int := Int.bmod x 4294967296

/-- A call of `Run`, with what the clock shows when the call compares it and when it sets the next due time. -/
structure Call where
  compared : Int
  updated : Int
  le : compared ≤ updated
  deriving DecidableEq

structure Schedule where
  nextCleanupTime : Int
  scans : List Call

namespace Schedule

def start : Schedule := ⟨0, []⟩

/-- `UpdateCleanUpTime`, in microseconds. -/
def updateCleanUpTime (logcleansecs now : Int) (s : Schedule) : Schedule :=
  { s with nextCleanupTime := now + int32 (logcleansecs * 1000000) }

/-- `Run`, as far as it decides whether to scan. -/
def run (logcleansecs : Int) (s : Schedule) (call : Call) : Schedule :=
  if call.compared < s.nextCleanupTime then s
  else updateCleanUpTime logcleansecs call.updated { s with scans := call :: s.scans }

end Schedule

/-- From the first call to the second at least so many seconds have passed. -/
def Apart (logcleansecs : Int) (first second : Call) : Prop := first.updated + logcleansecs * 1000000 ≤ second.compared

instance {logcleansecs : Int} {first second : Call} : Decidable (Apart logcleansecs first second) :=
  inferInstanceAs (Decidable (first.updated + logcleansecs * 1000000 ≤ second.compared))

/-- Any two scans are so far apart. -/
def Spaced (logcleansecs : Int) (s : Schedule) : Prop :=
  s.scans.Pairwise fun later earlier => Apart logcleansecs earlier later

/-- A call that comes so long after the last scan does scan. -/
def Punctual (logcleansecs : Int) (s : Schedule) (call : Call) : Prop :=
  ∀ last ∈ s.scans.head?, Apart logcleansecs last call → (s.run logcleansecs call).scans = call :: s.scans

/-- The clock does not go back from one call to the next. -/
def Chronological (calls : List Call) : Prop := calls.Pairwise fun a b => a.updated ≤ b.compared

/-- What the flag promises, all along a run. -/
structure KeepsInterval (logcleansecs : Int) (calls : List Call) : Prop where
  spaced : Always (Schedule.run logcleansecs) (Spaced logcleansecs) .start calls
  punctual : Each (Schedule.run logcleansecs) (Punctual logcleansecs) .start calls

/-- The due time follows from the last scan, and no scan is too close to it. -/
structure Scheduled (logcleansecs : Int) (s : Schedule) : Prop where
  spaced : Spaced logcleansecs s
  due : ∀ last ∈ s.scans.head?, s.nextCleanupTime = last.updated + logcleansecs * 1000000
  before : ∀ call ∈ s.scans, call.updated + logcleansecs * 1000000 ≤ s.nextCleanupTime

section
variable {logcleansecs : Int} {s : Schedule} {call : Call} {calls : List Call}

theorem scans_run_of_le (h : s.nextCleanupTime ≤ call.compared) : (s.run logcleansecs call).scans = call :: s.scans := by
  rw [Schedule.run, if_neg (Int.not_lt.mpr h)]
  rfl

theorem int32_of_le (h : 0 ≤ logcleansecs) (hle : logcleansecs ≤ 2147) :
    int32 (logcleansecs * 1000000) = logcleansecs * 1000000 :=
  Int.bmod_eq_of_le (by omega) (by omega)

theorem int32_lt (x : Int) : int32 x < 2147483648 :=
  Int.bmod_lt (by decide)

theorem scheduled_start : Scheduled logcleansecs .start := ⟨.nil, by simp [Schedule.start], by simp [Schedule.start]⟩

theorem Scheduled.run (h : Scheduled logcleansecs s) (hsecs : 0 ≤ logcleansecs) (hle : logcleansecs ≤ 2147) (call : Call) :
    Scheduled logcleansecs (s.run logcleansecs call) := by
  unfold Schedule.run
  split
  · exact h
  · rename_i hdue
    have hcall := call.le
    have hnext : (s.updateCleanUpTime logcleansecs call.updated).nextCleanupTime = call.updated + logcleansecs * 1000000 :=
      congrArg (call.updated + ·) (int32_of_le hsecs hle)
    refine ⟨.cons ?_ h.spaced, ?_, ?_⟩
    · intro earlier hearlier
      have hbefore := h.before earlier hearlier
      unfold Apart
      omega
    · rintro last ⟨⟩
      exact hnext
    · intro earlier hearlier
      change _ ≤ (s.updateCleanUpTime logcleansecs call.updated).nextCleanupTime
      rw [hnext]
      rcases List.mem_cons.mp hearlier with rfl | hearlier
      · exact Int.le_refl _
      · have hbefore := h.before earlier hearlier
        omega

theorem Scheduled.punctual (h : Scheduled logcleansecs s) : Punctual logcleansecs s call := by
  intro last hlast hapart
  refine scans_run_of_le ?_
  rw [h.due last hlast]
  exact hapart

theorem Scheduled.keepsInterval (h : Scheduled logcleansecs s) (hsecs : 0 ≤ logcleansecs) (hle : logcleansecs ≤ 2147) :
    ∀ calls, Always (Schedule.run logcleansecs) (Spaced logcleansecs) s calls ∧
      Each (Schedule.run logcleansecs) (Punctual logcleansecs) s calls := by
  intro calls
  induction calls generalizing s with
  | nil => exact ⟨h.spaced, trivial⟩
  | cons call calls ih =>
    obtain ⟨hspaced, hpunctual⟩ := ih (h.run hsecs hle call)
    exact ⟨⟨h.spaced, hspaced⟩, h.punctual, hpunctual⟩

/-- A product that wraps around makes the second of two calls scan too early. -/
theorem exists_not_keepsInterval (h : 2147 < logcleansecs) :
    ∃ calls, Chronological calls ∧ ¬KeepsInterval logcleansecs calls := by
  let late : Int := max 0 (int32 (logcleansecs * 1000000))
  have hlate : late < logcleansecs * 1000000 := by
    have hlt := int32_lt (logcleansecs * 1000000)
    omega
  refine ⟨[⟨0, 0, Int.le_refl 0⟩, ⟨late, late, Int.le_refl _⟩], ?_, ?_⟩
  · have hpos : 0 ≤ late := Int.le_max_left _ _
    simpa [Chronological] using hpos
  · rintro ⟨⟨-, -, hspaced⟩, -⟩
    have hfirst : Schedule.start.run logcleansecs ⟨0, 0, Int.le_refl 0⟩
        = ⟨0 + int32 (logcleansecs * 1000000), [⟨0, 0, Int.le_refl 0⟩]⟩ := rfl
    rw [hfirst] at hspaced
    have hscans : (Schedule.run logcleansecs ⟨0 + int32 (logcleansecs * 1000000), [⟨0, 0, Int.le_refl 0⟩]⟩
        ⟨late, late, Int.le_refl _⟩).scans = [⟨late, late, Int.le_refl _⟩, ⟨0, 0, Int.le_refl 0⟩] := by
      refine scans_run_of_le ?_
      dsimp only
      omega
    have hpair : Spaced logcleansecs _ := hspaced
    rw [Spaced, hscans] at hpair
    have hapart := (List.pairwise_cons.mp hpair).1 _ List.mem_cons_self
    unfold Apart at hapart
    dsimp only at hapart
    omega

end

/-- The cleaner keeps its interval in every run exactly under a flag of at most 2147 seconds. -/
theorem keepsInterval_iff (logcleansecs : Int) (h : 0 ≤ logcleansecs ∧ logcleansecs < 2147483648) :
    (∀ calls, Chronological calls → KeepsInterval logcleansecs calls) ↔ logcleansecs ≤ 2147 := by
  constructor
  · intro hkeeps
    refine Int.not_lt.mp fun hlong => ?_
    obtain ⟨calls, hcalls, hnot⟩ := exists_not_keepsInterval hlong
    exact hnot (hkeeps calls hcalls)
  · intro hle calls _
    obtain ⟨hspaced, hpunctual⟩ := scheduled_start.keepsInterval h.1 hle calls
    exact ⟨hspaced, hpunctual⟩

/-- The default of five minutes. -/
theorem keepsInterval_iff_default :
    (∀ calls, Chronological calls → KeepsInterval 300 calls) ↔ (300 : Int) ≤ 2147 :=
  keepsInterval_iff 300 (by decide)

/-- With an hour between the scans, two calls within a second both scan. -/
theorem not_keepsInterval : ¬ ∀ (logcleansecs : Int), 0 ≤ logcleansecs ∧ logcleansecs < 2147483648 →
    ∀ calls, Chronological calls → KeepsInterval logcleansecs calls := by
  intro h
  have hkeeps := h 3600 (by decide) [⟨0, 0, by decide⟩, ⟨1000000, 1000000, by decide⟩] (by simp [Chronological])
  obtain ⟨-, -, hspaced⟩ := hkeeps.spaced
  have hpair : Spaced 3600 _ := hspaced
  have hapart := (List.pairwise_cons.mp hpair).1 ⟨0, 0, by decide⟩ (by decide)
  exact absurd hapart (by decide)

end Glog.LogCleaner
