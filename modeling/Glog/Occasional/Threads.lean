import Mathlib.Data.List.ReduceOption
import Glog.Occasional.Sites
import Glog.Run.Threads

/-! # One site in several threads

The counters beside a site are shared by all the threads that come by, and each access to them is atomic by itself. What the
macros do between two accesses, another thread may see. -/

namespace Glog.Occasional
open Run Threads

/-- What is beside a site, how many executions have begun and the numbers of the messages logged. -/
structure Site (κ : Type) where
  counters : κ
  executions : Nat
  logged : List Nat
  deriving DecidableEq, Repr

namespace Site
variable {κ ι π : Type} (step : κ → ι → Option Nat × κ)

/-- A whole execution. -/
def execute (m : Site κ) (i : ι) : Site κ :=
  ⟨(step m.counters i).2, m.executions + 1, m.logged ++ (step m.counters i).1.toList⟩

variable {step}

theorem foldl_execute (m : Site κ) (is : List ι) : is.foldl (execute step) m =
    ⟨finalState step m.counters is, m.executions + is.length, m.logged ++ (outputs step m.counters is).reduceOption⟩ := by
  induction is generalizing m with
  | nil => simp [finalState, outputs]
  | cons i is ih =>
    rw [List.foldl_cons, ih]
    cases hout : (step m.counters i).1 <;> simp [execute, finalState, outputs, hout, Nat.add_assoc, Nat.add_comm 1]

/-- Where an execution is some steps of a thread, so are several. -/
theorem foldl_execute_alone {access : Site κ → π → ι → Site κ × π} {outside : π} {i : ι}
    (h : ∀ m, ∃ steps, alone access (m, outside) (List.replicate steps i) = (execute step m i, outside))
    (m : Site κ) (k : Nat) :
    ∃ steps, alone access (m, outside) (List.replicate steps i) =
      ((List.replicate k i).foldl (execute step) m, outside) := by
  induction k generalizing m with
  | zero => exact ⟨0, rfl⟩
  | succ k ih =>
    obtain ⟨steps, hsteps⟩ := h m
    obtain ⟨steps', hsteps'⟩ := ih (execute step m i)
    refine ⟨steps + steps', ?_⟩
    rw [List.replicate_add, alone_append, hsteps, hsteps']
    rfl

end Site

/-! ### `LOG_FIRST_N`

At most `n` messages are logged whatever the order. The threads that are between their increment and their second look
when the counter passes `n` log nothing, so there may be fewer. -/

/-- Where a thread is in `SOME_KIND_OF_LOG_FIRST_N`. -/
inductive FirstPlace
  | outside
  | increment
  | test (incremented : Bool)
  | log
  deriving DecidableEq, Repr

/-- The accesses of `SOME_KIND_OF_LOG_FIRST_N` to `LOG_OCCURRENCES`, one after the other. -/
def accessFirstN (n : Nat) (m : Site UInt32) (p : FirstPlace) (_ : Unit) : Site UInt32 × FirstPlace :=
  match p with
  | .outside => ({ m with executions := m.executions + 1 }, if m.counters.toNat ≤ n then .increment else .test false)
  | .increment => ({ m with counters := m.counters + 1 }, .test true)
  | .test _ => (m, if m.counters.toNat ≤ n then .log else .outside)
  | .log => ({ m with logged := m.logged ++ [m.counters.toNat] }, .outside)

/-- The threads have not come to the site yet. -/
def firstStart (threads : Nat) : Threads (Site UInt32) FirstPlace := ⟨⟨0, 0, []⟩, List.replicate threads .outside⟩

/-- A thread that runs alone logs what the executions one after the other log. -/
theorem accessFirstN_alone (n : Nat) (m : Site UInt32) : ∃ steps,
    alone (accessFirstN n) (m, .outside) (List.replicate steps ()) = (m.execute (someKindOfLogFirstN n) (), .outside) := by
  by_cases hfirst : m.counters.toNat ≤ n
  · by_cases hsecond : (m.counters + 1).toNat ≤ n
    · refine ⟨4, ?_⟩
      simp only [alone, accessFirstN, Site.execute, someKindOfLogFirstN, List.replicate, List.foldl_cons,
        List.foldl_nil, if_pos hfirst, if_pos hsecond, Option.toList_some]
    · refine ⟨3, ?_⟩
      simp only [alone, accessFirstN, Site.execute, someKindOfLogFirstN, List.replicate, List.foldl_cons,
        List.foldl_nil, if_pos hfirst, if_neg hsecond, Option.toList_none, List.append_nil]
  · refine ⟨2, ?_⟩
    simp only [alone, accessFirstN, Site.execute, someKindOfLogFirstN, List.replicate, List.foldl_cons,
      List.foldl_nil, if_neg hfirst, Option.toList_none, List.append_nil]

/-- How the messages, the threads under way and the counter belong together. -/
structure FirstAccount (n threads : Nat) (s : Threads (Site UInt32) FirstPlace) : Prop where
  length : s.places.length = threads
  kept : s.shared.logged.length + s.places.count .log + s.places.count (.test true) ≤ s.shared.counters.toNat
  exact : s.shared.counters.toNat ≤ n →
    s.shared.counters.toNat = s.shared.logged.length + s.places.count .log + s.places.count (.test true)
  spent : s.shared.counters.toNat + s.places.count .increment ≤ threads + s.shared.logged.length
  few : s.shared.logged.length + s.places.count .log ≤ n
  late : .test false ∈ s.places → n < s.shared.counters.toNat
  begun : s.shared.counters.toNat + s.places.count .increment ≤ s.shared.executions
  onlyBegun : s.shared.counters.toNat ≤ n → s.shared.executions = s.shared.counters.toNat + s.places.count .increment
  numbers : ∀ x ∈ s.shared.logged, 1 ≤ x ∧ x ≤ s.shared.counters.toNat

theorem firstAccount_start (n threads : Nat) : FirstAccount n threads (firstStart threads) := by
  have hcount : ∀ p : FirstPlace, p ≠ .outside → (List.replicate threads FirstPlace.outside).count p = 0 := fun p hp => by
    rw [List.count_replicate, if_neg (by simpa using hp.symm)]
  have hincrement := hcount .increment (by decide)
  have htest := hcount (.test true) (by decide)
  have hlog := hcount .log (by decide)
  constructor <;> simp [firstStart, hincrement, htest, hlog, List.mem_replicate]

namespace FirstAccount
variable {n threads : Nat} {s : Threads (Site UInt32) FirstPlace} {k : Nat}

/-- The threads at three different places are among all of them. -/
theorem places_le (h : FirstAccount n threads s) (q : FirstPlace) :
    (s.places.set k q).count .log + (s.places.set k q).count (.test true) +
      (s.places.set k q).count .increment ≤ threads := by
  have hle := count_three_le (l := s.places.set k q) (a := .log) (b := .test true) (c := .increment) (by decide)
      (by decide) (by decide)
  rwa [List.length_set, h.length] at hle

theorem late_set (h : FirstAccount n threads s) {q : FirstPlace} (hq : q ≠ .test false)
    (hmem : .test false ∈ s.places.set k q) :
    n < s.shared.counters.toNat := by
  rcases List.mem_or_eq_of_mem_set hmem with hmem | heq
  · exact h.late hmem
  · exact absurd heq.symm hq

theorem enter (h : FirstAccount n threads s) (hp : s.places[k]? = some .outside) :
    FirstAccount n threads ⟨(accessFirstN n s.shared .outside ()).1,
      s.places.set k (accessFirstN n s.shared .outside ()).2⟩ := by
  by_cases hfirst : s.shared.counters.toNat ≤ n
  · simp only [accessFirstN, if_pos hfirst]
    have hincrement := count_set_add hp .increment .increment
    have htest := count_set_add hp .increment (.test true)
    have hlog := count_set_add hp .increment .log
    have hle := h.places_le (k := k) .increment
    simp only [reduceCtorEq, if_true, if_false, Nat.add_zero] at hincrement htest hlog
    have hexact := h.exact hfirst
    have hbegun := h.onlyBegun hfirst
    refine ⟨List.length_set.trans h.length, ?_, ?_, ?_, ?_, h.late_set (by decide), ?_, ?_, h.numbers⟩ <;> dsimp only
    · omega
    · omega
    · omega
    · have := h.few
      omega
    · omega
    · omega
  · simp only [accessFirstN, if_neg hfirst]
    have hincrement := count_set_add hp (.test false) .increment
    have htest := count_set_add hp (.test false) (.test true)
    have hlog := count_set_add hp (.test false) .log
    simp only [reduceCtorEq, FirstPlace.test.injEq, Bool.false_eq_true, if_false, Nat.add_zero] at hincrement htest hlog
    have hlt : n < s.shared.counters.toNat := Nat.lt_of_not_le hfirst
    refine ⟨List.length_set.trans h.length, ?_, fun hle => absurd hle hfirst, ?_, ?_, fun _ => hlt, ?_,
      fun hle => absurd hle hfirst, h.numbers⟩ <;> dsimp only
    · have := h.kept
      omega
    · have := h.spent
      omega
    · have := h.few
      omega
    · have := h.begun
      omega

theorem increment (hfits : n + threads < 2 ^ 32) (h : FirstAccount n threads s) (hp : s.places[k]? = some .increment) :
    FirstAccount n threads ⟨(accessFirstN n s.shared .increment ()).1,
      s.places.set k (accessFirstN n s.shared .increment ()).2⟩ := by
  have hincrement := count_set_add hp (.test true) .increment
  have htest := count_set_add hp (.test true) (.test true)
  have hlog := count_set_add hp (.test true) .log
  have hone := one_le_count hp
  simp only [reduceCtorEq, if_true, if_false, Nat.add_zero] at hincrement htest hlog
  have hkept := h.kept
  have hspent := h.spent
  have hfew := h.few
  have hbegun := h.begun
  -- The counter stays below `n` and one more for each thread.
  have hsucc : (s.shared.counters + 1).toNat = s.shared.counters.toNat + 1 := by
    rw [toNat_succ]
    omega
  simp only [accessFirstN]
  refine ⟨List.length_set.trans h.length, ?_, fun hle => ?_, ?_, ?_, fun hmem => ?_, ?_, fun hle => ?_, fun x hx => ?_⟩ <;>
    dsimp only at * <;> rw [hsucc] at *
  · omega
  · have hexact := h.exact (by omega)
    omega
  · omega
  · omega
  · have hlate := h.late_set (by decide) hmem
    omega
  · omega
  · have honly := h.onlyBegun (by omega)
    omega
  · have hx := h.numbers x hx
    omega

theorem test (h : FirstAccount n threads s) {incremented : Bool} (hp : s.places[k]? = some (.test incremented)) :
    FirstAccount n threads
      ⟨(accessFirstN n s.shared (.test incremented) ()).1,
        s.places.set k (accessFirstN n s.shared (.test incremented) ()).2⟩ := by
  have hone := one_le_count hp
  have hkept := h.kept
  have hspent := h.spent
  have hfew := h.few
  have hbegun := h.begun
  by_cases hsecond : s.shared.counters.toNat ≤ n
  · have hexact := h.exact hsecond
    have honly := h.onlyBegun hsecond
    cases incremented with
    | false => exact absurd hsecond (Nat.not_le_of_lt (h.late (List.mem_of_getElem? hp)))
    | true =>
      simp only [accessFirstN, if_pos hsecond]
      have hincrement := count_set_add hp .log .increment
      have htest := count_set_add hp .log (.test true)
      have hlog := count_set_add hp .log .log
      simp only [reduceCtorEq, if_true, if_false, Nat.add_zero] at hincrement htest hlog
      refine ⟨List.length_set.trans h.length, ?_, fun _ => ?_, ?_, ?_, h.late_set (by decide), ?_, fun _ => ?_,
        h.numbers⟩ <;>
        dsimp only <;> omega
  · simp only [accessFirstN, if_neg hsecond]
    have hincrement := count_set_add hp .outside .increment
    have htest := count_set_add hp .outside (.test true)
    have hlog := count_set_add hp .outside .log
    simp only [reduceCtorEq, if_false, Nat.add_zero] at hincrement htest hlog
    refine ⟨List.length_set.trans h.length, ?_, fun hle => absurd hle hsecond, ?_, ?_, h.late_set (by decide), ?_,
      fun hle => absurd hle hsecond, h.numbers⟩ <;> dsimp only <;> omega

theorem log (h : FirstAccount n threads s) (hp : s.places[k]? = some .log) :
    FirstAccount n threads ⟨(accessFirstN n s.shared .log ()).1, s.places.set k (accessFirstN n s.shared .log ()).2⟩ := by
  have hincrement := count_set_add hp .outside .increment
  have htest := count_set_add hp .outside (.test true)
  have hlog := count_set_add hp .outside .log
  have hone := one_le_count hp
  simp only [reduceCtorEq, if_true, if_false, Nat.add_zero] at hincrement htest hlog
  have hkept := h.kept
  have hspent := h.spent
  have hfew := h.few
  have hbegun := h.begun
  simp only [accessFirstN]
  have hlength : (s.shared.logged ++ [s.shared.counters.toNat]).length = s.shared.logged.length + 1 := List.length_append
  refine ⟨List.length_set.trans h.length, ?_, fun hle => ?_, ?_, ?_, h.late_set (by decide), ?_, fun hle => ?_,
    fun x hx => ?_⟩ <;>
    dsimp only at *
  · omega
  · have hexact := h.exact hle
    omega
  · omega
  · omega
  · omega
  · have honly := h.onlyBegun hle
    omega
  · rcases List.mem_append.mp hx with hx | hx
    · exact h.numbers x hx
    · rw [List.mem_singleton.mp hx]
      omega

theorem step (hfits : n + threads < 2 ^ 32) (h : FirstAccount n threads s) {p : FirstPlace} (hp : s.places[k]? = some p) :
    FirstAccount n threads ⟨(accessFirstN n s.shared p ()).1, s.places.set k (accessFirstN n s.shared p ()).2⟩ := by
  cases p with
  | outside => exact h.enter hp
  | increment => exact h.increment hfits hp
  | test incremented => exact h.test hp
  | log => exact h.log hp

theorem of_interleaves (hfits : n + threads < 2 ^ 32) (h : Interleaves (accessFirstN n) (firstStart threads) s) :
    FirstAccount n threads s :=
  h.invariant (firstAccount_start n threads) fun _ _ _ _ h hp => h.step hfits hp

/-- When no thread is under way, the messages lost are those of the threads that were when the counter passed `n`. -/
theorem settled (h : FirstAccount n threads s) (houtside : ∀ p ∈ s.places, p = .outside) :
    (s.shared.executions ≤ n → s.shared.logged.length = s.shared.executions) ∧
      (n < s.shared.executions → n < s.shared.logged.length + threads) := by
  have hcount : ∀ p : FirstPlace, p ≠ .outside → s.places.count p = 0 := fun p hp =>
    List.count_eq_zero.mpr fun hmem => hp (houtside p hmem)
  have hincrement := hcount .increment (by decide)
  have htest := hcount (.test true) (by decide)
  have hlog := hcount .log (by decide)
  have hbegun := h.begun
  have hspent := h.spent
  by_cases hle : s.shared.counters.toNat ≤ n
  · have hexact := h.exact hle
    have honly := h.onlyBegun hle
    constructor <;> intro <;> omega
  · constructor <;> intro <;> omega

end FirstAccount

/-- In every interleaving `LOG_FIRST_N` logs at most `n` messages, with numbers from one to at most one more than `n`
for each thread. Once no thread is under way, every execution is logged if there were at most `n`, and fewer than one
message for each thread is missing if there were more. -/
theorem firstN_interleaved {n threads : Nat} (hfits : n + threads < 2 ^ 32) {s : Threads (Site UInt32) FirstPlace}
    (h : Interleaves (accessFirstN n) (firstStart threads) s) :
    s.shared.logged.length ≤ n ∧ (∀ x ∈ s.shared.logged, 1 ≤ x ∧ x ≤ n + threads) ∧
      ((∀ p ∈ s.places, p = .outside) →
        (s.shared.executions ≤ n → s.shared.logged.length = s.shared.executions) ∧
          (n < s.shared.executions → n < s.shared.logged.length + threads)) := by
  have haccount := FirstAccount.of_interleaves hfits h
  have hfew := haccount.few
  have hspent := haccount.spent
  refine ⟨by omega, fun x hx => ?_, haccount.settled⟩
  obtain ⟨hone, hle⟩ := haccount.numbers x hx
  omega

/-- Both executions are counted before either of them looks again, and the one message of `LOG_FIRST_N(severity, 1)` is
lost. -/
theorem firstN_interleaved_two :
    let s := [(0, ()), (0, ()), (1, ()), (1, ()), (0, ()), (1, ())].foldl (Threads.step (accessFirstN 1)) (firstStart 2)
    s.shared.logged = [] ∧ 1 < s.shared.logged.length + 2 := by
  have hruns : Interleaves (accessFirstN 1) (firstStart 2)
      ([(0, ()), (0, ()), (1, ()), (1, ()), (0, ()), (1, ())].foldl (Threads.step (accessFirstN 1)) (firstStart 2)) :=
    Reaches.foldl fun _ _ _ => trivial
  refine ⟨by decide, ?_⟩
  exact ((firstN_interleaved (by decide) hruns).2.2 (by decide)).2 (by decide)

/-! ### `LOG_EVERY_N`

Two threads may both find the counter above `n` and both take `n` away. The counter then wraps around, and the site logs
nothing until its executions have brought it down again. -/

/-- Where a thread is in `SOME_KIND_OF_LOG_EVERY_N`. -/
inductive EveryPlace
  | outside
  | increment
  | subtract
  | test
  | log
  deriving DecidableEq, Repr

/-- The accesses of `SOME_KIND_OF_LOG_EVERY_N`, one after the other. -/
def accessEveryN (n : Nat) (m : Site Counters) (p : EveryPlace) (_ : Unit) : Site Counters × EveryPlace :=
  match p with
  | .outside =>
    ({ m with
        counters := { m.counters with occurrences := m.counters.occurrences + 1 }
        executions := m.executions + 1 }, .increment)
  | .increment =>
    let incremented := m.counters.occurrencesModN + 1
    ({ m with counters := { m.counters with occurrencesModN := incremented } },
      if n < incremented.toNat then .subtract else .test)
  | .subtract =>
    ({ m with counters := { m.counters with occurrencesModN := m.counters.occurrencesModN - UInt32.ofNat n } }, .test)
  | .test => (m, if m.counters.occurrencesModN = 1 then .log else .outside)
  | .log => ({ m with logged := m.logged ++ [m.counters.occurrences.toNat] }, .outside)

def everyStart (threads : Nat) : Threads (Site Counters) EveryPlace := ⟨⟨⟨0, 0⟩, 0, []⟩, List.replicate threads .outside⟩

/-- A thread that runs alone logs what the executions one after the other log. -/
theorem accessEveryN_alone (n : Nat) (m : Site Counters) : ∃ steps,
    alone (accessEveryN n) (m, .outside) (List.replicate steps ()) = (m.execute (someKindOfLogEveryN n) (), .outside) := by
  by_cases hgt : n < (m.counters.occurrencesModN + 1).toNat
  · by_cases hone : m.counters.occurrencesModN + 1 - UInt32.ofNat n = 1
    · refine ⟨5, ?_⟩
      simp only [alone, accessEveryN, Site.execute, someKindOfLogEveryN, List.replicate, List.foldl_cons,
        List.foldl_nil, if_pos hgt, if_pos hone, Option.toList_some]
    · refine ⟨4, ?_⟩
      simp only [alone, accessEveryN, Site.execute, someKindOfLogEveryN, List.replicate, List.foldl_cons,
        List.foldl_nil, if_pos hgt, if_neg hone, Option.toList_none, List.append_nil]
  · by_cases hone : m.counters.occurrencesModN + 1 = 1
    · refine ⟨4, ?_⟩
      simp only [alone, accessEveryN, Site.execute, someKindOfLogEveryN, List.replicate, List.foldl_cons,
        List.foldl_nil, if_neg hgt, if_pos hone, Option.toList_some]
    · refine ⟨3, ?_⟩
      simp only [alone, accessEveryN, Site.execute, someKindOfLogEveryN, List.replicate, List.foldl_cons,
        List.foldl_nil, if_neg hgt, if_neg hone, Option.toList_none, List.append_nil]

section
variable {n threads : Nat}

/-- The first of `n` executions is the one that is logged. -/
theorem logEveryN_round (hn : 1 ≤ n) (hmax : n ≤ 2 ^ 31 - 1) : (logEveryN n (List.replicate n ())).reduceOption = [1] := by
  have hround : logEveryN n (List.replicate n ()) = some 1 :: List.replicate (n - 1) none := by
    refine List.ext_getElem? fun k => ?_
    by_cases hk : k < n
    · rw [logEveryN_getElem? hn hmax _ (by simpa using hk)]
      cases k with
      | zero => simp
      | succ k =>
        rw [Nat.mod_eq_of_lt hk, if_neg (Nat.succ_ne_zero k), List.getElem?_cons_succ, List.getElem?_replicate,
          if_pos (by omega)]
    · rw [List.getElem?_eq_none (by simpa [logEveryN] using hk), List.getElem?_eq_none (by simp; omega)]
  rw [hround, List.reduceOption_cons_of_some, List.reduceOption_replicate_none]

/-- A thread that goes by `n` times leaves the counter at `n`. -/
theorem everyN_round (hn : 1 ≤ n) (hmax : n ≤ 2 ^ 31 - 1) (hthreads : 1 ≤ threads) : ∃ m : Site Counters,
    Interleaves (accessEveryN n) (everyStart threads) ⟨m, List.replicate threads .outside⟩ ∧
      m.counters.occurrencesModN.toNat = n ∧ m.executions = n ∧ m.logged = [1] := by
  have hplace : (everyStart threads).places[0]? = some .outside := by
    rw [everyStart, List.getElem?_replicate_of_lt (by omega)]
  obtain ⟨steps, hsteps⟩ := Site.foldl_execute_alone (accessEveryN_alone n) (everyStart threads).shared n
  rw [Site.foldl_execute] at hsteps
  have hruns := Interleaves.of_alone hplace hsteps
  have hlogged := logEveryN_round hn hmax
  unfold logEveryN at hlogged
  simp only [everyStart, List.set_replicate_self, List.length_replicate, hlogged, Nat.zero_add, List.nil_append] at hruns
  have hcounters : EveryN n (List.replicate n ()) (finalState (someKindOfLogEveryN n) ⟨0, 0⟩ (List.replicate n ())) :=
    finalState_induction (R := EveryN n) ⟨rfl, rfl⟩ (fun _ i _ _ h => h.step hn hmax i) List.prefix_rfl
  refine ⟨_, hruns, hcounters.occurrencesModN.trans ?_, rfl, rfl⟩
  rw [List.length_replicate]
  unfold place
  rw [if_neg (by omega), Nat.mod_eq_of_lt (by omega)]
  omega

/-- Two threads take `n` away before either of them looks again. -/
theorem everyN_race (hmin : 2 < n) (hmax : n < 2 ^ 31) (htwo : 2 ≤ threads) {m : Site Counters}
    (hcounter : m.counters.occurrencesModN.toNat = n) : ∃ m' : Site Counters,
    Interleaves (accessEveryN n) ⟨m, List.replicate threads .outside⟩ ⟨m', List.replicate threads .outside⟩ ∧
      m'.counters.occurrencesModN.toNat = 2 ^ 32 + 2 - n ∧ m'.executions = m.executions + 2 ∧ m'.logged = m.logged := by
  have hn32 : n < 2 ^ 32 := by omega
  have hofNat : (UInt32.ofNat n).toNat = n := UInt32.toNat_ofNat_of_lt' hn32
  obtain ⟨⟨occurrences, modN⟩, executions, logged⟩ := m
  dsimp only at hcounter ⊢
  have hfirst : (modN + 1).toNat = n + 1 := by
    rw [toNat_succ]
    omega
  have hsecond : (modN + 1 + 1).toNat = n + 2 := by
    rw [toNat_succ]
    omega
  have hback : (modN + 1 + 1 - UInt32.ofNat n).toNat = 2 := by
    rw [UInt32.toNat_sub_of_le _ _ (UInt32.le_iff_toNat_le.mpr (by omega))]
    omega
  have hwrapped : (modN + 1 + 1 - UInt32.ofNat n - UInt32.ofNat n).toNat = 2 ^ 32 + 2 - n := by
    rw [UInt32.toNat_sub, hback, hofNat]
    omega
  have hnotBack : modN + 1 + 1 - UInt32.ofNat n ≠ 1 := fun h => by
    rw [h] at hback
    cases hback
  have hnotWrapped : modN + 1 + 1 - UInt32.ofNat n - UInt32.ofNat n ≠ 1 := fun h => by
    rw [h] at hwrapped
    have hone : (1 : UInt32).toNat = 1 := rfl
    omega
  -- The first thread gets to its subtraction, the second one gets by, and the first one subtracts behind it.
  have hreaches : alone (accessEveryN n) (⟨⟨occurrences, modN⟩, executions, logged⟩, .outside) [(), ()] =
      (⟨⟨occurrences + 1, modN + 1⟩, executions + 1, logged⟩, .subtract) := by
    simp only [alone, accessEveryN, List.foldl_cons, List.foldl_nil, hfirst, if_pos (Nat.lt_succ_self n)]
  have hpasses : alone (accessEveryN n) (⟨⟨occurrences + 1, modN + 1⟩, executions + 1, logged⟩, .outside) [(), (), (), ()] =
      (⟨⟨occurrences + 1 + 1, modN + 1 + 1 - UInt32.ofNat n⟩, executions + 1 + 1, logged⟩, .outside) := by
    simp only [alone, accessEveryN, List.foldl_cons, List.foldl_nil, hsecond, if_pos (show n < n + 2 by omega),
      if_neg hnotBack]
  have hends : alone (accessEveryN n)
      (⟨⟨occurrences + 1 + 1, modN + 1 + 1 - UInt32.ofNat n⟩, executions + 1 + 1, logged⟩, .subtract) [(), ()] =
      (⟨⟨occurrences + 1 + 1, modN + 1 + 1 - UInt32.ofNat n - UInt32.ofNat n⟩, executions + 1 + 1, logged⟩, .outside) := by
    simp only [alone, accessEveryN, List.foldl_cons, List.foldl_nil, if_neg hnotWrapped]
  have hplace : ∀ k, k < threads → (List.replicate threads EveryPlace.outside)[k]? = some .outside := fun k hk => by
    rw [List.getElem?_replicate_of_lt hk]
  have hone := Interleaves.of_alone (s := ⟨_, List.replicate threads EveryPlace.outside⟩) (hplace 0 (by omega)) hreaches
  have htwo := Interleaves.of_alone (k := 1) (s := ⟨_, (List.replicate threads EveryPlace.outside).set 0 .subtract⟩)
    ((List.getElem?_set_ne (by omega)).trans (hplace 1 (by omega))) hpasses
  have hself : ((List.replicate threads EveryPlace.outside).set 0 .subtract).set 1 .outside =
      (List.replicate threads EveryPlace.outside).set 0 .subtract := by
    rw [List.set_comm _ _ (by omega), List.set_replicate_self]
  rw [hself] at htwo
  have hthree := Interleaves.of_alone (s := ⟨_, (List.replicate threads EveryPlace.outside).set 0 .subtract⟩)
    (List.getElem?_set_self (by rw [List.length_replicate]; omega)) hends
  rw [List.set_set, List.set_replicate_self] at hthree
  exact ⟨_, (hone.trans htwo).trans hthree, hwrapped, rfl, rfl⟩

end

/-- The executions since the counter wrapped around have not brought it down to `n` yet. -/
def StillHigh (n begun : Nat) (m : Site Counters) : Prop := (n - 1) * (m.executions - begun) ≤ 2 ^ 32 - 2 * n

/-- Every execution since the counter wrapped around has taken `n` away, or it is about to. -/
structure Silent (n threads begun : Nat) (logged : List Nat) (s : Threads (Site Counters) EveryPlace) : Prop where
  length : s.places.length = threads
  balance : ∃ subtracted, s.shared.counters.occurrencesModN.toNat + (n - 1) * subtracted = 2 ^ 32 + 2 - n +
    s.places.count .subtract ∧
    begun + subtracted + s.places.count .subtract + s.places.count .increment = s.shared.executions
  quiet : .log ∉ s.places
  logged : s.shared.logged = logged

theorem silent_start {n threads : Nat} {m : Site Counters} (hwrapped : m.counters.occurrencesModN.toNat = 2 ^ 32 + 2 - n) :
    Silent n threads m.executions m.logged ⟨m, List.replicate threads .outside⟩ where
  length := List.length_replicate
  balance := ⟨0, by simp [hwrapped, List.count_replicate], by simp [List.count_replicate]⟩
  quiet := fun h => nomatch List.eq_of_mem_replicate h
  logged := rfl

namespace Silent
variable {n threads begun : Nat} {logged : List Nat} {s : Threads (Site Counters) EveryPlace} {k : Nat}

theorem high (h : Silent n threads begun logged s) (hmax : n < 2 ^ 31) (hhigh : StillHigh n begun s.shared) :
    n + 2 ≤ s.shared.counters.occurrencesModN.toNat := by
  obtain ⟨subtracted, hbalance, hbegun⟩ := h.balance
  have hmul : (n - 1) * subtracted ≤ (n - 1) * (s.shared.executions - begun) := Nat.mul_le_mul_left _ (by omega)
  unfold StillHigh at hhigh
  omega

theorem quiet_set (h : Silent n threads begun logged s) {q : EveryPlace} (hq : q ≠ .log) : .log ∉ s.places.set k q :=
  fun hmem => by
  rcases List.mem_or_eq_of_mem_set hmem with hmem | heq
  · exact h.quiet hmem
  · exact hq heq.symm

theorem outside (h : Silent n threads begun logged s) (hp : s.places[k]? = some .outside) :
    Silent n threads begun logged ⟨(accessEveryN n s.shared .outside ()).1,
      s.places.set k (accessEveryN n s.shared .outside ()).2⟩ := by
  have hsubtract := count_set_add hp .increment .subtract
  have hincrement := count_set_add hp .increment .increment
  simp only [reduceCtorEq, if_true, if_false, Nat.add_zero] at hsubtract hincrement
  obtain ⟨subtracted, hbalance, hbegun⟩ := h.balance
  simp only [accessEveryN]
  refine ⟨List.length_set.trans h.length, ⟨subtracted, ?_, ?_⟩, h.quiet_set (by decide), h.logged⟩ <;> dsimp only <;> omega

theorem increment (h : Silent n threads begun logged s) (hthreads : threads + 2 < n) (hmax : n < 2 ^ 31)
    (hhigh : StillHigh n begun s.shared) (hp : s.places[k]? = some .increment) :
    Silent n threads begun logged
      ⟨(accessEveryN n s.shared .increment ()).1, s.places.set k (accessEveryN n s.shared .increment ()).2⟩ := by
  have hle := h.high hmax hhigh
  have hsubtract := count_set_add hp .subtract .subtract
  have hincrement := count_set_add hp .subtract .increment
  have hthree :=
    count_three_le (l := s.places) (a := .subtract) (b := .increment) (c := .log) (by decide) (by decide) (by decide)
  have hone := one_le_count hp
  simp only [reduceCtorEq, if_true, if_false, Nat.add_zero] at hsubtract hincrement
  obtain ⟨subtracted, hbalance, hbegun⟩ := h.balance
  rw [h.length] at hthree
  -- The other threads do not carry the counter past the end of its type.
  have hsucc : (s.shared.counters.occurrencesModN + 1).toNat = s.shared.counters.occurrencesModN.toNat + 1 := by
    rw [toNat_succ]
    omega
  have hgt : n < (s.shared.counters.occurrencesModN + 1).toNat := by omega
  simp only [accessEveryN, if_pos hgt]
  refine ⟨List.length_set.trans h.length, ⟨subtracted, ?_, ?_⟩, h.quiet_set (by decide), h.logged⟩ <;> dsimp only <;> omega

theorem subtract (h : Silent n threads begun logged s) (hthreads : threads + 2 < n) (hmax : n < 2 ^ 31)
    (hhigh : StillHigh n begun s.shared) (hp : s.places[k]? = some .subtract) :
    Silent n threads begun logged
      ⟨(accessEveryN n s.shared .subtract ()).1, s.places.set k (accessEveryN n s.shared .subtract ()).2⟩ := by
  have hle := h.high hmax hhigh
  have hsubtract := count_set_add hp .test .subtract
  have hincrement := count_set_add hp .test .increment
  have hone := one_le_count hp
  simp only [reduceCtorEq, if_true, if_false, Nat.add_zero] at hsubtract hincrement
  obtain ⟨subtracted, hbalance, hbegun⟩ := h.balance
  have hn32 : n < 2 ^ 32 := by omega
  have hofNat : (UInt32.ofNat n).toNat = n := UInt32.toNat_ofNat_of_lt' hn32
  have hsub : (s.shared.counters.occurrencesModN - UInt32.ofNat n).toNat = s.shared.counters.occurrencesModN.toNat - n := by
    rw [UInt32.toNat_sub_of_le _ _ (UInt32.le_iff_toNat_le.mpr (by omega)), hofNat]
  have hmul : (n - 1) * (subtracted + 1) = (n - 1) * subtracted + (n - 1) := Nat.mul_succ _ _
  simp only [accessEveryN]
  refine ⟨List.length_set.trans h.length, ⟨subtracted + 1, ?_, ?_⟩, h.quiet_set (by decide), h.logged⟩ <;>
    dsimp only <;> omega

theorem test (h : Silent n threads begun logged s) (hmax : n < 2 ^ 31) (hhigh : StillHigh n begun s.shared)
    (hp : s.places[k]? = some .test) :
    Silent n threads begun logged ⟨(accessEveryN n s.shared .test ()).1,
      s.places.set k (accessEveryN n s.shared .test ()).2⟩ := by
  have hle := h.high hmax hhigh
  have hnot : s.shared.counters.occurrencesModN ≠ 1 := fun hone => by
    have htoNat : (1 : UInt32).toNat = 1 := rfl
    rw [hone] at hle
    omega
  have hsubtract := count_set_add hp .outside .subtract
  have hincrement := count_set_add hp .outside .increment
  simp only [reduceCtorEq, if_false, Nat.add_zero] at hsubtract hincrement
  obtain ⟨subtracted, hbalance, hbegun⟩ := h.balance
  simp only [accessEveryN, if_neg hnot]
  refine ⟨List.length_set.trans h.length, ⟨subtracted, ?_, ?_⟩, h.quiet_set (by decide), h.logged⟩ <;> dsimp only <;> omega

/-- No access of any thread ends the silence while the counter is high. -/
theorem step (h : Silent n threads begun logged s) (hthreads : threads + 2 < n) (hmax : n < 2 ^ 31)
    (hhigh : StillHigh n begun s.shared) {p : EveryPlace} (hp : s.places[k]? = some p) :
    Silent n threads begun logged ⟨(accessEveryN n s.shared p ()).1, s.places.set k (accessEveryN n s.shared p ()).2⟩ := by
  cases p with
  | outside => exact h.outside hp
  | increment => exact h.increment hthreads hmax hhigh hp
  | subtract => exact h.subtract hthreads hmax hhigh hp
  | test => exact h.test hmax hhigh hp
  | log => exact absurd (List.mem_of_getElem? hp) h.quiet

/-- An access only adds to the executions. -/
theorem stillHigh_of_access {m : Site Counters} {p : EveryPlace} (hhigh : StillHigh n begun (accessEveryN n m p ()).1) :
    StillHigh n begun m := by
  have hle : m.executions ≤ (accessEveryN n m p ()).1.executions := by
    cases p <;> simp [accessEveryN]
  exact Nat.le_trans (Nat.mul_le_mul_left _ (Nat.sub_le_sub_right hle begun)) hhigh

theorem of_interleaves (h : Silent n threads begun logged s) (hthreads : threads + 2 < n) (hmax : n < 2 ^ 31)
    {t : Threads (Site Counters) EveryPlace} (hruns : Interleaves (accessEveryN n) s t)
    (hhigh : StillHigh n begun t.shared) :
    Silent n threads begun logged t := by
  refine hruns.invariant (I := fun t => StillHigh n begun t.shared → Silent n threads begun logged t) (fun _ => h) ?_ hhigh
  intro t k p _ hI hp hhigh
  have hbefore := stillHigh_of_access hhigh
  exact (hI hbefore).step hthreads hmax hbefore hp

end Silent

/-- Where two threads share a site of `LOG_EVERY_N`, there is an order of their first `n + 2` executions that carries
the counter around below zero. From there the site logs nothing, in whatever order its threads go on, for as many
executions `k` as have `(n - 1) * k` within `2 ^ 32 - 2 * n`. -/
theorem everyN_silenced {n threads : Nat} (htwo : 2 ≤ threads) (hthreads : threads + 2 < n) (hmax : n < 2 ^ 31) :
    ∃ s, Interleaves (accessEveryN n) (everyStart threads) s ∧ (∀ p ∈ s.places, p = .outside) ∧
      s.shared.executions = n + 2 ∧ s.shared.logged = [1] ∧ s.shared.counters.occurrencesModN.toNat = 2 ^ 32 + 2 - n ∧
      ∀ t, Interleaves (accessEveryN n) s t →
        (n - 1) * (t.shared.executions - (n + 2)) ≤ 2 ^ 32 - 2 * n → t.shared.logged = [1] := by
  obtain ⟨m, hround, hcounter, hexecutions, hlogged⟩ := @everyN_round n threads (by omega) (by omega) (by omega)
  obtain ⟨m', hrace, hwrapped, hexecutions', hlogged'⟩ := everyN_race (by omega) hmax htwo hcounter
  rw [hexecutions] at hexecutions'
  rw [hlogged] at hlogged'
  refine ⟨⟨m', List.replicate threads .outside⟩, hround.trans hrace, fun p hp => List.eq_of_mem_replicate hp, hexecutions',
    hlogged', hwrapped, fun t hruns hhigh => ?_⟩
  have hsilent := @silent_start n threads _ hwrapped
  rw [hexecutions', hlogged'] at hsilent
  exact (hsilent.of_interleaves hthreads hmax hruns hhigh).logged

theorem everyN_silenced_ten : ∃ s, Interleaves (accessEveryN 10) (everyStart 2) s ∧ (∀ p ∈ s.places, p = .outside) ∧
    s.shared.executions = 12 ∧ s.shared.logged = [1] ∧ s.shared.counters.occurrencesModN.toNat = 2 ^ 32 - 8 ∧
    ∀ t, Interleaves (accessEveryN 10) s t → 9 * (t.shared.executions - 12) ≤ 2 ^ 32 - 20 → t.shared.logged = [1] :=
  everyN_silenced (by decide) (by decide) (by decide)

/-! ### `LOG_IF_EVERY_N`

Its counter is loaded and stored, so another thread's execution may be forgotten. What is stored is a remainder, which no
order of the threads' steps turns into anything else. -/

/-- Where a thread is in `SOME_KIND_OF_LOG_IF_EVERY_N`. -/
inductive IfEveryPlace
  | outside
  | look
  | store (occurrencesModN : UInt32)
  | log
  deriving DecidableEq, Repr

/-- The accesses of `SOME_KIND_OF_LOG_IF_EVERY_N`, with the value that the condition has where it is looked at. -/
def accessIfEveryN (n : Nat) (m : Site Counters) (p : IfEveryPlace) (condition : Bool) : Site Counters × IfEveryPlace :=
  match p with
  | .outside =>
    ({ m with
        counters := { m.counters with occurrences := m.counters.occurrences + 1 }
        executions := m.executions + 1 }, .look)
  | .look => (m, if condition then .store (UInt32.ofNat ((m.counters.occurrencesModN + 1).toNat % n)) else .outside)
  | .store occurrencesModN =>
    ({ m with counters := { m.counters with occurrencesModN } }, if occurrencesModN.toNat = 1 % n then .log else .outside)
  | .log => ({ m with logged := m.logged ++ [m.counters.occurrences.toNat] }, .outside)

def ifEveryStart (threads : Nat) : Threads (Site Counters) IfEveryPlace :=
  ⟨⟨⟨0, 0⟩, 0, []⟩, List.replicate threads .outside⟩

theorem accessIfEveryN_alone (n : Nat) (condition : Bool) (m : Site Counters) : ∃ steps,
    alone (accessIfEveryN n) (m, .outside) (List.replicate steps condition) =
      (m.execute (someKindOfLogIfEveryN n) condition, .outside) := by
  cases condition with
  | false =>
    refine ⟨2, ?_⟩
    simp [alone, accessIfEveryN, Site.execute, someKindOfLogIfEveryN, List.replicate]
  | true =>
    by_cases hone : (UInt32.ofNat ((m.counters.occurrencesModN + 1).toNat % n)).toNat = 1 % n
    · refine ⟨4, ?_⟩
      simp only [alone, accessIfEveryN, Site.execute, someKindOfLogIfEveryN, List.replicate, List.foldl_cons,
        List.foldl_nil, if_true, if_pos hone, Option.toList_some]
    · refine ⟨3, ?_⟩
      simp only [alone, accessIfEveryN, Site.execute, someKindOfLogIfEveryN, List.replicate, List.foldl_cons,
        List.foldl_nil, if_true, if_neg hone, Option.toList_none, List.append_nil]

section
variable {n threads : Nat} {s : Threads (Site Counters) IfEveryPlace}

theorem toNat_remainder_lt (hn : 1 ≤ n) (k : Nat) : (UInt32.ofNat (k % n)).toNat < n := by
  have hle := Nat.mod_le (k % n) (2 ^ 32)
  have hlt := Nat.mod_lt k hn
  rw [UInt32.toNat_ofNat']
  omega

/-- The counter and what the threads are about to store in it are remainders. -/
theorem ifEveryN_remainder (hn : 1 ≤ n) (h : Interleaves (accessIfEveryN n) (ifEveryStart threads) s) :
    s.shared.counters.occurrencesModN.toNat < n ∧ ∀ v, .store v ∈ s.places → v.toNat < n := by
  refine h.invariant (I := fun s => s.shared.counters.occurrencesModN.toNat < n ∧ ∀ v, .store v ∈ s.places →
    v.toNat < n) ?_ ?_
  · exact ⟨hn, fun v hv => nomatch List.eq_of_mem_replicate hv⟩
  · rintro t k p condition ⟨hcounter, hstores⟩ hp
    have hset : ∀ q : IfEveryPlace, (∀ v, q = .store v → v.toNat < n) → ∀ v, .store v ∈ t.places.set k q → v.toNat < n := by
      intro q hq v hv
      rcases List.mem_or_eq_of_mem_set hv with hv | heq
      · exact hstores v hv
      · exact hq v heq.symm
    cases p with
    | outside => exact ⟨hcounter, hset _ fun _ hq => nomatch hq⟩
    | look =>
      refine ⟨hcounter, hset _ fun v hq => ?_⟩
      cases condition with
      | false => cases hq
      | true =>
        cases hq
        exact toNat_remainder_lt hn _
    | store v =>
      refine ⟨hstores v (List.mem_of_getElem? hp), hset _ fun w hq => ?_⟩
      simp only [accessIfEveryN] at hq
      split at hq <;> cases hq
    | log => exact ⟨hcounter, hset _ fun _ hq => nomatch hq⟩

theorem succ_mod_eq_one (hn : 1 ≤ n) (k : Nat) : (k + 1) % n = 1 % n ↔ k % n = 0 := by
  have hlt := Nat.mod_lt k hn
  rw [succ_mod hn]
  rcases Nat.eq_or_lt_of_le hn with rfl | hn
  · simp [Nat.mod_one]
  · rw [Nat.mod_eq_of_lt hn]
    split <;> omega

/-- From a counter at `r`, as many of `k` executions are logged as there are multiples of `n` among `r` and the `k - 1`
numbers behind it. -/
theorem ifEveryN_count (hn : 1 ≤ n) (hmax : n < 2 ^ 32) {m : Site Counters}
    (hlt : m.counters.occurrencesModN.toNat < n) (k : Nat) :
    let m' := (List.replicate k true).foldl (Site.execute (someKindOfLogIfEveryN n)) m
    m'.counters.occurrencesModN.toNat = (m.counters.occurrencesModN.toNat + k) % n ∧ m'.executions = m.executions + k ∧
      m'.logged.length + (m.counters.occurrencesModN.toNat + n - 1) / n =
        m.logged.length + (m.counters.occurrencesModN.toNat + k + n - 1) / n := by
  generalize hr : m.counters.occurrencesModN.toNat = r at *
  induction k with
  | zero => exact ⟨by rw [List.replicate_zero, List.foldl_nil, hr, Nat.add_zero, Nat.mod_eq_of_lt hlt], rfl, rfl⟩
  | succ k ih =>
    rw [List.replicate_succ', List.foldl_append, List.foldl_cons, List.foldl_nil]
    generalize (List.replicate k true).foldl (Site.execute (someKindOfLogIfEveryN n)) m = m' at ih ⊢
    obtain ⟨hcounter, hexecutions, hlogged⟩ := ih
    have hltk := Nat.mod_lt (r + k) hn
    have hnext : (UInt32.ofNat ((m'.counters.occurrencesModN + 1).toNat % n)).toNat = (r + (k + 1)) % n := by
      have hsucc : (m'.counters.occurrencesModN + 1).toNat = (r + k) % n + 1 := by
        rw [toNat_succ, hcounter]
        omega
      have hlt32 : (r + k + 1) % n < 2 ^ 32 := Nat.lt_trans (Nat.mod_lt _ hn) hmax
      rw [hsucc, Nat.mod_add_mod]
      exact UInt32.toNat_ofNat_of_lt' hlt32
    have hdvd : n ∣ r + k + n - 1 + 1 ↔ (r + k) % n = 0 := by
      rw [show r + k + n - 1 + 1 = r + k + n by omega, Nat.dvd_iff_mod_eq_zero, Nat.add_mod_right]
    have hdiv := Nat.succ_div (a := r + k + n - 1) (b := n)
    rw [show r + k + n - 1 + 1 = r + (k + 1) + n - 1 by omega] at hdiv hdvd
    simp only [Site.execute, someKindOfLogIfEveryN, if_true]
    refine ⟨hnext, by rw [hexecutions, Nat.add_assoc], ?_⟩
    rw [hnext, hdiv]
    have hone : (r + (k + 1)) % n = 1 % n ↔ (r + k) % n = 0 := succ_mod_eq_one hn (r + k)
    by_cases hzero : (r + k) % n = 0
    · rw [if_pos (hone.mpr hzero), if_pos (hdvd.mpr hzero), Option.toList_some, List.length_append,
        List.length_singleton]
      omega
    · rw [if_neg fun h => hzero (hone.mp h), if_neg fun h => hzero (hdvd.mp h), Option.toList_none,
        List.append_nil]
      omega

/-- Whatever order of steps went before, a thread that then executes the site `n` times by itself, with a condition that
holds, logs exactly one message. -/
theorem ifEveryN_recovers (hn : 1 ≤ n) (hmax : n < 2 ^ 32) (h : Interleaves (accessIfEveryN n) (ifEveryStart threads) s) :
    ∃ steps m, alone (accessIfEveryN n) (s.shared, .outside) (List.replicate steps true) = (m, .outside) ∧
      m.executions = s.shared.executions + n ∧ m.logged.length = s.shared.logged.length + 1 := by
  have hlt := (ifEveryN_remainder hn h).1
  obtain ⟨steps, hsteps⟩ := Site.foldl_execute_alone (accessIfEveryN_alone n true) s.shared n
  obtain ⟨-, hexecutions, hlogged⟩ := ifEveryN_count hn hmax hlt n
  refine ⟨steps, _, hsteps, hexecutions, ?_⟩
  have hround : (s.shared.counters.occurrencesModN.toNat + n + n - 1) / n =
      (s.shared.counters.occurrencesModN.toNat + n - 1) / n + 1 := by
    rw [show s.shared.counters.occurrencesModN.toNat + n + n - 1 = s.shared.counters.occurrencesModN.toNat +
      n - 1 + n by omega, Nat.add_div_right _ hn]
  omega

/-- Two threads store the same remainder, so that two executions count as one. -/
theorem ifEveryN_recovers_three :
    let s := [(0, true), (0, true), (1, true), (1, true), (0, true), (1, true), (0, true), (1, true)].foldl
      (Threads.step (accessIfEveryN 3)) (ifEveryStart 2)
    s.shared.counters = ⟨2, 1⟩ ∧ s.shared.logged = [2, 2] ∧
      ∃ steps m, alone (accessIfEveryN 3) (s.shared, .outside) (List.replicate steps true) = (m, .outside) ∧
        m.executions = s.shared.executions + 3 ∧ m.logged.length = s.shared.logged.length + 1 := by
  have hruns : Interleaves (accessIfEveryN 3) (ifEveryStart 2)
      ([(0, true), (0, true), (1, true), (1, true), (0, true), (1, true), (0, true), (1, true)].foldl
        (Threads.step (accessIfEveryN 3)) (ifEveryStart 2)) :=
    Reaches.foldl fun _ _ _ => trivial
  exact ⟨by decide, by decide, ifEveryN_recovers (by decide) (by decide) hruns⟩

end

end Glog.Occasional
