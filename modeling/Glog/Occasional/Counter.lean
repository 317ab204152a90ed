import Glog.Occasional.Sites

/-! # The number a conditional message carries

`LOG_IF_EVERY_N` makes its messages with `LOG_OCCURRENCES`, which every execution advances. It is the number of the
executions whose condition held as long as no condition was false. -/

namespace Glog.Occasional
open Run

/-! ### Counts along a list -/

theorem count_take_le {conditions : List Bool} (k : Nat) :
    (conditions.take k).count true ≤ conditions.count true := (List.take_sublist k conditions).count_le true

theorem count_take_succ {conditions : List Bool} {k : Nat} (h : conditions[k]? = some true) :
    (conditions.take (k + 1)).count true = (conditions.take k).count true + 1 := by
  rw [List.take_add_one, h, List.count_append]
  rfl

/-- The place of the condition that holds after `m` others. -/
theorem exists_true {conditions : List Bool} {m : Nat} (h : m < conditions.count true) :
    ∃ k, conditions[k]? = some true ∧ (conditions.take k).count true = m := by
  induction conditions using List.reverseRecOn with
  | nil => cases h
  | append_singleton conditions condition ih =>
    by_cases hlt : m < conditions.count true
    · obtain ⟨k, hk, hcount⟩ := ih hlt
      have hle : k < conditions.length := (List.getElem?_eq_some_iff.mp hk).1
      refine ⟨k, ?_, ?_⟩
      · rw [List.getElem?_append_left hle, hk]
      · rw [List.take_append_of_le_length (Nat.le_of_lt hle), hcount]
    · rw [List.count_append] at h
      cases condition with
      | false => exact absurd h hlt
      | true =>
        refine ⟨conditions.length, ?_, ?_⟩
        · simp
        · simp at h ⊢
          omega

/-- The conditions up to `k` all hold exactly if `k` lies in the run of true ones at the start. -/
theorem count_take_eq_iff {conditions : List Bool} {k : Nat} (hk : k ≤ conditions.length) :
    (conditions.take k).count true = k ↔ k ≤ (conditions.takeWhile id).length := by
  induction conditions generalizing k with
  | nil => simp_all
  | cons condition conditions ih =>
    cases k with
    | zero => simp
    | succ k =>
      have hcount := List.count_le_length (a := true) (l := conditions.take k)
      have hlength := List.length_take_le k conditions
      cases condition with
      | false =>
        simp
        omega
      | true => simpa using @ih k (by simpa using hk)

theorem lt_ceil_iff {n q x : Nat} (hn : 1 ≤ n) : q < (x + n - 1) / n ↔ q * n < x := by
  rw [Nat.lt_iff_add_one_le, Nat.le_div_iff_mul_le hn, Nat.succ_mul]
  omega

/-! ### The messages -/

/-- The counters that the messages of a run carry, in order. -/
def messages (n : Nat) (conditions : List Bool) : List Nat := (logIfEveryN n conditions).filterMap id

/-- The counter is the number of the executions so far whose condition held, and the numbers go up by `n`. -/
structure CountsOccurrences (n : Nat) (conditions : List Bool) : Prop where
  counter : ∀ k counter, (logIfEveryN n conditions)[k]? = some (some counter) →
    counter = (conditions.take (k + 1)).count true
  messages : ∀ j counter, (messages n conditions)[j]? = some counter → counter = j * n + 1

section
variable {n : Nat} {conditions : List Bool}

theorem logIfEveryN_logs_iff (hn : 1 ≤ n) (hlength : conditions.length < 2 ^ 32) {k counter : Nat} :
    (logIfEveryN n conditions)[k]? = some (some counter) ↔
      conditions[k]? = some true ∧ (conditions.take k).count true % n = 0 ∧ counter = k + 1 := by
  rw [logIfEveryN_getElem? hn (Or.inr hlength)]
  cases hk : conditions[k]? with
  | none => simp
  | some condition =>
    have hlt : k < conditions.length := (List.getElem?_eq_some_iff.mp hk).1
    have hmod : ((conditions.take k).length + 1) % 2 ^ 32 = k + 1 := by
      rw [List.length_take_of_le (Nat.le_of_lt hlt)]
      exact Nat.mod_eq_of_lt (by omega)
    simp only [Option.map_some, Option.some.injEq, hmod]
    split
    · rename_i h
      simp [h.1, h.2, eq_comm]
    · rename_i h
      simp only [reduceCtorEq, false_iff]
      exact fun ⟨hcondition, hcount, _⟩ => h ⟨hcondition, hcount⟩

/-- The counter is right exactly where only executions with a true condition log before one with a false one. -/
theorem counter_iff (hn : 1 ≤ n) (hlength : conditions.length < 2 ^ 32) :
    (∀ k counter, (logIfEveryN n conditions)[k]? = some (some counter) →
      counter = (conditions.take (k + 1)).count true) ↔
    ∀ k, conditions[k]? = some true → (conditions.take k).count true % n = 0 →
      k < (conditions.takeWhile id).length := by
  have hall : ∀ k, conditions[k]? = some true →
      (k + 1 = (conditions.take (k + 1)).count true ↔ k < (conditions.takeWhile id).length) := fun k hk =>
    eq_comm.trans (count_take_eq_iff (List.getElem?_eq_some_iff.mp hk).1)
  simp only [logIfEveryN_logs_iff hn hlength]
  constructor
  · intro h k hk hcount
    exact (hall k hk).mp (h k (k + 1) ⟨hk, hcount, rfl⟩)
  · rintro h k counter ⟨hk, hcount, rfl⟩
    exact (hall k hk).mpr (h k hk hcount)

/-- The executions before the first false condition log as many messages as all of them. -/
theorem logged_early_iff (hn : 1 ≤ n) :
    (∀ k, conditions[k]? = some true → (conditions.take k).count true % n = 0 →
      k < (conditions.takeWhile id).length) ↔
    ((conditions.takeWhile id).length + n - 1) / n = (conditions.count true + n - 1) / n := by
  have hrun : (conditions.take (conditions.takeWhile id).length).count true = (conditions.takeWhile id).length :=
    (count_take_eq_iff (List.takeWhile_prefix id).length_le).mpr (Nat.le_refl _)
  have hle : (conditions.takeWhile id).length ≤ conditions.count true := hrun ▸ count_take_le _
  constructor
  · intro h
    refine Nat.le_antisymm (Nat.div_le_div_right (by omega)) (Nat.not_lt.mp fun hlt => ?_)
    obtain ⟨k, hk, hcount⟩ := exists_true ((lt_ceil_iff hn).mp hlt)
    have hearly := h k hk (by rw [hcount, Nat.mul_mod_left])
    rw [(count_take_eq_iff (Nat.le_of_lt (List.getElem?_eq_some_iff.mp hk).1)).mpr (Nat.le_of_lt hearly)] at hcount
    have hlast := (lt_ceil_iff hn).mpr (hcount ▸ hearly)
    exact Nat.lt_irrefl _ hlast
  · intro h k hk hcount
    obtain ⟨q, hq⟩ := Nat.dvd_of_mod_eq_zero hcount
    have hbefore : q * n < conditions.count true := by
      have hnext : (conditions.take (k + 1)).count true ≤ conditions.count true := count_take_le (k + 1)
      rw [count_take_succ hk, hq] at hnext
      rw [Nat.mul_comm]
      exact hnext
    rw [← lt_ceil_iff hn, ← h, lt_ceil_iff hn, Nat.mul_comm, ← hq] at hbefore
    refine Nat.not_le.mp fun hge => ?_
    have hmore := (List.take_prefix_take_left (l := conditions) hge).sublist.count_le true
    omega

/-! ### The sequence of the messages -/

theorem ceil_succ (hn : 1 ≤ n) (x : Nat) :
    (x + 1 + n - 1) / n = (x + n - 1) / n + if x % n = 0 then 1 else 0 := by
  have hlt := Nat.mod_lt x hn
  have hdiv : x + n - 1 = n * (x / n) + (x % n + n - 1) := by
    have hx := Nat.div_add_mod x n
    omega
  have hrest : (x % n + n - 1) / n = if x % n = 0 then 0 else 1 := by
    generalize x % n = r at hlt
    split
    · exact Nat.div_eq_of_lt (by omega)
    · exact Nat.div_eq_of_lt_le (by omega) (by omega)
  rw [Nat.add_right_comm, Nat.add_sub_cancel, Nat.add_div_right x hn, hdiv, Nat.mul_add_div hn, hrest]
  split <;> rfl

theorem ceil_mul (hn : 1 ≤ n) {x : Nat} (h : x % n = 0) : (x + n - 1) / n * n = x := by
  obtain ⟨q, rfl⟩ := Nat.dvd_of_mod_eq_zero h
  rw [Nat.add_sub_assoc hn, Nat.mul_add_div hn, Nat.div_eq_of_lt (by omega), Nat.add_zero, Nat.mul_comm]

theorem messages_concat (hn : 1 ≤ n) {condition : Bool} (hlength : (conditions ++ [condition]).length < 2 ^ 32) :
    messages n (conditions ++ [condition]) = messages n conditions ++
      if condition = true ∧ conditions.count true % n = 0 then [conditions.length + 1] else [] := by
  have hlt : conditions.length + 1 < 2 ^ 32 := by simpa using hlength
  have hfinal : IfEveryN n conditions _ := IfEveryN.final hn (Or.inr (by omega))
  rw [messages, logIfEveryN, outputs_concat, hfinal.out hn (Or.inr hlength), Nat.mod_eq_of_lt hlt]
  rw [List.filterMap_append, ← logIfEveryN, ← messages]
  split
  · rfl
  · rfl

theorem length_messages (hn : 1 ≤ n) (hlength : conditions.length < 2 ^ 32) :
    (messages n conditions).length = (conditions.count true + n - 1) / n := by
  induction conditions using List.reverseRecOn with
  | nil => exact (Nat.div_eq_of_lt (by simp; omega)).symm
  | append_singleton conditions condition ih =>
    have hlt : conditions.length < 2 ^ 32 := by
      rw [List.length_append] at hlength
      omega
    rw [messages_concat hn hlength, List.length_append, ih hlt, List.count_append]
    cases condition with
    | false => simp
    | true =>
      have hnext := ceil_succ hn (conditions.count true)
      simp only [true_and]
      rw [List.count_singleton_self, hnext]
      split <;> rfl

/-- Each message is made after `n` more executions with a true condition than the one before. -/
theorem messages_getElem? (hn : 1 ≤ n) (hlength : conditions.length < 2 ^ 32) {j counter : Nat}
    (h : (messages n conditions)[j]? = some counter) :
    ∃ k, conditions[k]? = some true ∧ (conditions.take k).count true = j * n ∧ counter = k + 1 := by
  induction conditions using List.reverseRecOn with
  | nil => cases h
  | append_singleton conditions condition ih =>
    have hlt : conditions.length < 2 ^ 32 := by
      rw [List.length_append] at hlength
      omega
    rw [messages_concat hn hlength] at h
    rcases Nat.lt_or_ge j (messages n conditions).length with hj | hj
    · rw [List.getElem?_append_left hj] at h
      obtain ⟨k, hk, hcount, hcounter⟩ := ih hlt h
      have hle : k < conditions.length := (List.getElem?_eq_some_iff.mp hk).1
      refine ⟨k, ?_, ?_, hcounter⟩
      · rw [List.getElem?_append_left hle, hk]
      · rw [List.take_append_of_le_length (Nat.le_of_lt hle), hcount]
    · rw [List.getElem?_append_right hj] at h
      split at h
      · rename_i hlogs
        obtain ⟨rfl, hmod⟩ := hlogs
        obtain ⟨hj0, hcounter⟩ := List.getElem?_eq_some_iff.mp h
        rw [List.length_singleton] at hj0
        have hj' : j = (conditions.count true + n - 1) / n := by
          rw [← length_messages hn hlt]
          omega
        refine ⟨conditions.length, ?_, ?_, ?_⟩
        · simp
        · rw [List.take_left, hj', ceil_mul hn hmod]
        · rw [← hcounter, List.getElem_singleton]
      · cases h

/-- Where only executions before the first false condition log, the numbers go up by `n`. -/
theorem messages_of_early (hn : 1 ≤ n) (hlength : conditions.length < 2 ^ 32)
    (hearly : ∀ k, conditions[k]? = some true → (conditions.take k).count true % n = 0 →
      k < (conditions.takeWhile id).length) {j counter : Nat} (h : (messages n conditions)[j]? = some counter) :
    counter = j * n + 1 := by
  obtain ⟨k, hk, hcount, rfl⟩ := messages_getElem? hn hlength h
  have hlt := hearly k hk (by rw [hcount, Nat.mul_mod_left])
  rw [(count_take_eq_iff (Nat.le_of_lt (List.getElem?_eq_some_iff.mp hk).1)).mpr (Nat.le_of_lt hlt)] at hcount
  rw [hcount]

/-- The counter of `LOG_IF_EVERY_N` counts the occurrences exactly if the executions before the first false condition
log as many messages as the whole run. -/
theorem countsOccurrences_iff (hn : 1 ≤ n) (hlength : conditions.length < 2 ^ 32) : CountsOccurrences n conditions ↔
    ((conditions.takeWhile id).length + n - 1) / n = (conditions.count true + n - 1) / n := by
  rw [← logged_early_iff hn]
  constructor
  · exact fun h => (counter_iff hn hlength).mp h.counter
  · exact fun h => ⟨(counter_iff hn hlength).mpr h, fun j counter => messages_of_early hn hlength h⟩

end

theorem countsOccurrences_cookies : CountsOccurrences 2 [true, true, false] :=
  (countsOccurrences_iff (by decide) (by decide)).mpr (by decide)

/-- The first big cookie after a small one is the second one to the counter. -/
theorem not_countsOccurrences : ¬ CountsOccurrences 1 [false, true] := by
  intro h
  have hcounter := h.counter 1 2 (by decide)
  exact absurd hcounter (by decide)

end Glog.Occasional
