import Mathlib.Algebra.GroupWithZero.Nat
import Glog.Run.Outputs

/-! # Occasional logging

`LOG_EVERY_N`, `LOG_IF_EVERY_N` and `LOG_FIRST_N` keep static counters beside their call site. What an execution of the
site logs is the counter its message is made with, which `google::COUNTER` prints. -/

namespace Glog.Occasional
open Run

/-! ### The macros -/

/-- `LOG_OCCURRENCES` and `LOG_OCCURRENCES_MOD_N`, of type `std::atomic<unsigned int>`. -/
structure Counters where
  occurrences : UInt32
  occurrencesModN : UInt32
  deriving DecidableEq, Repr

/-- `SOME_KIND_OF_LOG_EVERY_N` -/
def someKindOfLogEveryN (n : Nat) (s : Counters) (_ : Unit) : Option Nat × Counters :=
  let occurrences := s.occurrences + 1
  let incremented := s.occurrencesModN + 1
  let occurrencesModN := if n < incremented.toNat then incremented - UInt32.ofNat n else incremented
  (if occurrencesModN = 1 then some occurrences.toNat else none, ⟨occurrences, occurrencesModN⟩)

/-- `SOME_KIND_OF_PLOG_EVERY_N`, whose message is an `ErrnoLogMessage`. -/
def someKindOfPlogEveryN (n : Nat) : Counters → Unit → Option Nat × Counters := someKindOfLogEveryN n

/-- `SOME_KIND_OF_LOG_IF_EVERY_N`; the input is the value that the condition has at this execution. -/
def someKindOfLogIfEveryN (n : Nat) (s : Counters) (condition : Bool) : Option Nat × Counters :=
  let occurrences := s.occurrences + 1
  if condition then
    let occurrencesModN := UInt32.ofNat ((s.occurrencesModN + 1).toNat % n)
    (if occurrencesModN.toNat = 1 % n then some occurrences.toNat else none, ⟨occurrences, occurrencesModN⟩)
  else
    (none, ⟨occurrences, s.occurrencesModN⟩)

/-- `SOME_KIND_OF_LOG_FIRST_N`, with one counter only. -/
def someKindOfLogFirstN (n : Nat) (s : UInt32) (_ : Unit) : Option Nat × UInt32 :=
  let occurrences := if s.toNat ≤ n then s + 1 else s
  (if occurrences.toNat ≤ n then some occurrences.toNat else none, occurrences)

/-! The executions of one site. -/

def logEveryN (n : Nat) (executions : List Unit) : List (Option Nat) :=
  outputs (someKindOfLogEveryN n) ⟨0, 0⟩ executions

def logIfEveryN (n : Nat) (conditions : List Bool) : List (Option Nat) :=
  outputs (someKindOfLogIfEveryN n) ⟨0, 0⟩ conditions

def logFirstN (n : Nat) (executions : List Unit) : List (Option Nat) :=
  outputs (someKindOfLogFirstN n) 0 executions

/-! ### Every n-th execution -/

theorem toNat_succ (c : UInt32) : (c + 1).toNat = (c.toNat + 1) % 2 ^ 32 := by
  rw [UInt32.toNat_add]
  rfl

/-- A remainder goes up by one, or back to zero. -/
theorem succ_mod {n : Nat} (hn : 1 ≤ n) (k : Nat) : (k + 1) % n = if k % n + 1 = n then 0 else k % n + 1 := by
  have hlt := Nat.mod_lt k hn
  rw [← Nat.mod_add_mod k n 1]
  split
  · rename_i h
    rw [h, Nat.mod_self]
  · exact Nat.mod_eq_of_lt (by omega)

/-- The place of the `k`th execution in its round of `n`. -/
def place (n k : Nat) : Nat := if k = 0 then 0 else (k - 1) % n + 1

theorem place_le {n : Nat} (hn : 1 ≤ n) (k : Nat) : place n k ≤ n := by
  unfold place
  split
  · exact Nat.zero_le n
  · exact Nat.mod_lt (k - 1) hn

theorem place_succ {n : Nat} (hn : 1 ≤ n) (k : Nat) :
    place n (k + 1) = if n < place n k + 1 then 1 else place n k + 1 := by
  have hlt := Nat.mod_lt (k - 1) hn
  cases k with
  | zero => simp [place, Nat.not_lt.mpr hn]
  | succ k =>
    simp only [place, Nat.add_sub_cancel, Nat.add_eq_zero_iff, Nat.one_ne_zero, and_false, if_false] at hlt ⊢
    rw [succ_mod hn]
    split <;> split <;> omega

theorem place_succ_eq_one {n : Nat} {k : Nat} : place n (k + 1) = 1 ↔ k % n = 0 := by simp [place]

/-- What the counters of `LOG_EVERY_N` tell of the executions before. -/
structure EveryN (n : Nat) (before : List Unit) (s : Counters) : Prop where
  occurrences : s.occurrences.toNat = before.length % 2 ^ 32
  occurrencesModN : s.occurrencesModN.toNat = place n before.length

theorem toNat_occurrences_succ {c : UInt32} {k : Nat} (h : c.toNat = k % 2 ^ 32) :
    (c + 1).toNat = (k + 1) % 2 ^ 32 := by
  rw [toNat_succ, h, Nat.mod_add_mod]

theorem EveryN.step {n : Nat} (hn : 1 ≤ n) (hmax : n ≤ 2 ^ 31 - 1) {before : List Unit} {s : Counters}
    (h : EveryN n before s) (i : Unit) : EveryN n (before ++ [i]) (someKindOfLogEveryN n s i).2 where
  occurrences := by
    rw [List.length_append]
    exact toNat_occurrences_succ h.occurrences
  occurrencesModN := by
    have hle := place_le hn before.length
    have hincremented : (s.occurrencesModN + 1).toNat = place n before.length + 1 := by
      rw [toNat_succ, h.occurrencesModN]
      omega
    rw [List.length_append, List.length_singleton, place_succ hn]
    simp only [someKindOfLogEveryN, hincremented]
    split
    · rename_i hlt
      have hn32 : n < 2 ^ 32 := by omega
      have hofNat : (UInt32.ofNat n).toNat = n := UInt32.toNat_ofNat_of_lt' hn32
      rw [UInt32.toNat_sub_of_le _ _ (UInt32.le_iff_toNat_le.mpr (by omega))]
      omega
    · exact hincremented

theorem EveryN.out {n : Nat} (hn : 1 ≤ n) (hmax : n ≤ 2 ^ 31 - 1) {before : List Unit} {s : Counters}
    (h : EveryN n before s) (i : Unit) : (someKindOfLogEveryN n s i).1 =
      if before.length % n = 0 then some ((before.length + 1) % 2 ^ 32) else none := by
  have hstep := h.step hn hmax i
  have hone : (someKindOfLogEveryN n s i).2.occurrencesModN = 1 ↔ before.length % n = 0 := by
    rw [← UInt32.toNat_inj, hstep.occurrencesModN, List.length_append]
    exact place_succ_eq_one
  have hcounter := toNat_occurrences_succ h.occurrences
  show (if (someKindOfLogEveryN n s i).2.occurrencesModN = 1 then some (s.occurrences + 1).toNat else none) = _
  simp only [hone, hcounter]

/-- What `LOG_EVERY_N` logs at each execution. -/
theorem logEveryN_getElem? {n : Nat} (hn : 1 ≤ n) (hmax : n ≤ 2 ^ 31 - 1) (executions : List Unit) {k : Nat}
    (hk : k < executions.length) :
    (logEveryN n executions)[k]? = some (if k % n = 0 then some ((k + 1) % 2 ^ 32) else none) := by
  have hstart : EveryN n [] ⟨0, 0⟩ := ⟨rfl, rfl⟩
  rw [logEveryN, outputs_of_related hstart (fun before i t _ h => h.step hn hmax i)
    (fun before i t _ h => h.out hn hmax i)]
  simp [hk, Nat.min_eq_left (Nat.le_of_lt hk)]

/-! ### Every n-th execution whose condition holds -/

/-- What the counters of `LOG_IF_EVERY_N` tell of the conditions so far. -/
structure IfEveryN (n : Nat) (before : List Bool) (s : Counters) : Prop where
  occurrences : s.occurrences.toNat = before.length % 2 ^ 32
  occurrencesModN : s.occurrencesModN.toNat = before.count true % n

/-- The sum `LOG_OCCURRENCES_MOD_N + 1` stays in an `unsigned int`. -/
def Fits (n : Nat) (conditions : List Bool) : Prop := n < 2 ^ 32 ∨ conditions.length < 2 ^ 32

namespace IfEveryN
variable {n : Nat} {before : List Bool} {s : Counters}

theorem modN_succ (hn : 1 ≤ n) (hfits : Fits n (before ++ [true])) (h : IfEveryN n before s) :
    (UInt32.ofNat ((s.occurrencesModN + 1).toNat % n)).toNat = (before.count true + 1) % n := by
  have hcount := List.count_le_length (a := true) (l := before)
  have hlt := Nat.mod_lt (before.count true) hn
  have hle := Nat.mod_le (before.count true) n
  have hsum : before.count true % n + 1 < 2 ^ 32 ∨ before.count true % n + 1 = n ∧ n < 2 ^ 32 := by
    rcases hfits with hfits | hfits
    · omega
    · rw [List.length_append, List.length_singleton] at hfits
      omega
  have hincremented : (s.occurrencesModN + 1).toNat = before.count true % n + 1 := by
    rw [toNat_succ, h.occurrencesModN]
    omega
  rw [hincremented, Nat.mod_add_mod]
  have hmod : (before.count true + 1) % n < 2 ^ 32 := by
    rw [← Nat.mod_add_mod]
    rcases hsum with hsum | ⟨-, hn32⟩
    · exact Nat.lt_of_le_of_lt (Nat.mod_le _ n) hsum
    · exact Nat.lt_trans (Nat.mod_lt _ hn) hn32
  exact UInt32.toNat_ofNat_of_lt' hmod

theorem step (hn : 1 ≤ n) {condition : Bool} (hfits : Fits n (before ++ [condition])) (h : IfEveryN n before s) :
    IfEveryN n (before ++ [condition]) (someKindOfLogIfEveryN n s condition).2 := by
  have hoccurrences : (s.occurrences + 1).toNat = (before ++ [condition]).length % 2 ^ 32 := by
    rw [List.length_append]
    exact toNat_occurrences_succ h.occurrences
  cases condition with
  | false =>
    refine ⟨hoccurrences, ?_⟩
    rw [List.count_append]
    exact h.occurrencesModN
  | true =>
    refine ⟨hoccurrences, ?_⟩
    rw [List.count_append]
    exact h.modN_succ hn hfits

theorem out (hn : 1 ≤ n) {condition : Bool} (hfits : Fits n (before ++ [condition])) (h : IfEveryN n before s) :
    (someKindOfLogIfEveryN n s condition).1 =
      if condition = true ∧ before.count true % n = 0 then some ((before.length + 1) % 2 ^ 32) else none := by
  cases condition with
  | false => rfl
  | true =>
    have hfirst : (before.count true + 1) % n = 1 % n ↔ before.count true % n = 0 := by
      have hlt := Nat.mod_lt (before.count true) hn
      rw [succ_mod hn]
      rcases Nat.eq_or_lt_of_le hn with rfl | hn
      · simp [Nat.mod_one]
      · rw [Nat.mod_eq_of_lt hn]
        split <;> omega
    simp only [someKindOfLogIfEveryN, if_true, true_and, h.modN_succ hn hfits, hfirst,
      toNat_occurrences_succ h.occurrences]

theorem initial : IfEveryN n [] ⟨0, 0⟩ := ⟨rfl, (Nat.zero_mod n).symm⟩

/-- The counters after a run. -/
theorem final (hn : 1 ≤ n) (hfits : Fits n before) :
    IfEveryN n before (finalState (someKindOfLogIfEveryN n) ⟨0, 0⟩ before) :=
  finalState_induction initial
    (fun _ _ _ h hread => hread.step hn (hfits.imp id (Nat.lt_of_le_of_lt h.length_le))) List.prefix_rfl

end IfEveryN

/-- What `LOG_IF_EVERY_N` logs at each execution. -/
theorem logIfEveryN_getElem? {n : Nat} (hn : 1 ≤ n) {conditions : List Bool} (hfits : Fits n conditions) (k : Nat) :
    (logIfEveryN n conditions)[k]? = conditions[k]?.map fun condition =>
      if condition = true ∧ (conditions.take k).count true % n = 0 then some (((conditions.take k).length + 1) % 2 ^ 32)
      else none := by
  have hpre : ∀ before condition, before ++ [condition] <+: conditions → Fits n (before ++ [condition]) :=
    fun before condition h => hfits.imp id (Nat.lt_of_le_of_lt h.length_le)
  exact outputs_of_related (f := fun before condition =>
      if condition = true ∧ before.count true % n = 0 then some ((before.length + 1) % 2 ^ 32) else none) IfEveryN.initial
    (fun before i t h hbefore => hbefore.step hn (hpre before i h))
    (fun before i t h hbefore => hbefore.out hn (hpre before i h)) k

/-! ### The first n executions -/

/-- The counter of `LOG_FIRST_N` stops at `n + 1`. -/
def FirstN (n : Nat) (before : List Unit) (s : UInt32) : Prop := s.toNat = min before.length (n + 1)

namespace FirstN
variable {n : Nat} {before : List Unit} {s : UInt32}

theorem incremented (hmax : n ≤ 2 ^ 31 - 1) (h : FirstN n before s) :
    (if s.toNat ≤ n then s + 1 else s).toNat = min (before.length + 1) (n + 1) := by
  have hs : s.toNat = min before.length (n + 1) := h
  split
  · rw [toNat_succ, Nat.mod_eq_of_lt (by omega)]
    omega
  · omega

theorem step (hmax : n ≤ 2 ^ 31 - 1) (h : FirstN n before s) (i : Unit) :
    FirstN n (before ++ [i]) (someKindOfLogFirstN n s i).2 := by
  rw [FirstN, List.length_append]
  exact h.incremented hmax

theorem out (hmax : n ≤ 2 ^ 31 - 1) (h : FirstN n before s) (i : Unit) :
    (someKindOfLogFirstN n s i).1 = if before.length < n then some (before.length + 1) else none := by
  simp only [someKindOfLogFirstN, h.incremented hmax]
  by_cases hlt : before.length < n
  · rw [Nat.min_eq_left (by omega), if_pos hlt, if_pos (by omega)]
  · rw [if_neg hlt, if_neg (by omega)]

end FirstN

/-- What `LOG_FIRST_N` logs at each execution. -/
theorem logFirstN_getElem? {n : Nat} (hmax : n ≤ 2 ^ 31 - 1) (executions : List Unit) {k : Nat}
    (hk : k < executions.length) : (logFirstN n executions)[k]? = some (if k < n then some (k + 1) else none) := by
  have hstart : FirstN n [] 0 := (Nat.zero_min (n + 1)).symm
  rw [logFirstN, outputs_of_related hstart (fun before i t _ h => h.step hmax i) (fun before i t _ h => h.out hmax i)]
  simp [hk, Nat.min_eq_left (Nat.le_of_lt hk)]

/-! ### Which executions log -/

/-- `LOG_EVERY_N` logs the 1st, the (n+1)st, ... execution with its number, `LOG_IF_EVERY_N` those of the executions whose
condition holds, `LOG_FIRST_N` the first `n`. -/
theorem occasional_logging {n : Nat} (hn : 1 ≤ n) (hmax : n ≤ 2 ^ 31 - 1) :
    (∀ (executions : List Unit) (k : Nat), k < executions.length →
      (logEveryN n executions)[k]? = some (if k % n = 0 then some ((k + 1) % 2 ^ 32) else none)) ∧
    (∀ (conditions : List Bool) (k : Nat), (∃ counter, (logIfEveryN n conditions)[k]? = some (some counter)) ↔
      conditions[k]? = some true ∧ (conditions.take k).count true % n = 0) ∧
    (∀ (executions : List Unit) (k : Nat), k < executions.length →
      ((∃ counter, (logFirstN n executions)[k]? = some (some counter)) ↔ k < n)) := by
  refine ⟨fun executions k hk => logEveryN_getElem? hn hmax executions hk, ?_, ?_⟩
  · intro conditions k
    rw [logIfEveryN_getElem? hn (Or.inl (by omega))]
    cases conditions[k]? with
    | none => simp
    | some condition => simp
  · intro executions k hk
    rw [logFirstN_getElem? hmax executions hk]
    simp

theorem occasional_logging_three : (logEveryN 3 [(), (), (), ()])[3]? = some (some 4) ∧
    (∃ counter, (logIfEveryN 3 [false, true])[1]? = some (some counter)) ∧
    ¬ ∃ counter, (logFirstN 3 [(), (), (), ()])[3]? = some (some counter) := by
  obtain ⟨hevery, hif, hfirst⟩ := @occasional_logging 3 (by decide) (by decide)
  exact ⟨hevery _ 3 (by decide), (hif _ 1).mpr (by decide), mt (hfirst _ 3 (by decide)).mp (by decide)⟩

end Glog.Occasional
