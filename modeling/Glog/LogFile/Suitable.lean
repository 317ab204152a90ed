import Glog.Cleaner.Agreement

/-! # The choice of a name

`GetSuitableFileName` looks for a name whose file is not too large: first the one that it is given, then those with a
sequence number. Where all are too large it removes the oldest file. -/

namespace Glog.LogFile
open LogCleaner

/-- What the function comes to: the name, the numbered names that it has looked at, and the file that it removes. -/
structure Choice where
  name : Text
  considered : List Text
  removed : Option Text
  deriving DecidableEq

def candidate (origin : Text) (i : Nat) : Text := origin ++ '-' :: setw 3 (decimal i)

/-- The loop over the sequence numbers. -/
def chooseSequence (cfg : Config) (env : Env) (origin : Text) : Nat → Nat → Int × Text → Choice
  | 0, _, oldest => ⟨oldest.2, [], some oldest.2⟩
  | count + 1, i, oldest =>
    match env.stat (candidate origin i) with
    | none => ⟨candidate origin i, [candidate origin i], none⟩
    | some st =>
      if st.size >>> 20 < maxLogSize cfg then ⟨candidate origin i, [candidate origin i], none⟩
      else
        let rest :=
          chooseSequence cfg env origin count (i + 1)
            (if st.mtime < oldest.1 then (st.mtime, candidate origin i) else oldest)
        { rest with considered := candidate origin i :: rest.considered }

def chooseFileName (cfg : Config) (env : Env) (origin : Text) (p : Process) : Choice :=
  match env.stat origin with
  | none => ⟨origin, [], none⟩
  | some st =>
    if st.size >>> 20 > maxLogSize cfg then
      chooseSequence cfg env origin (sequenceLength env p) 0 (st.mtime, origin)
    else ⟨origin, [], none⟩

section
variable {cfg : Config} {env : Env} {origin : Text} {r : Nat}

theorem name_chooseSequence (count : Nat) : ∀ i oldest,
    (chooseSequence cfg env origin count i oldest).name = nextSequence cfg env origin count i oldest := by
  induction count with
  | zero => exact fun _ _ => rfl
  | succ count ih =>
    intro i oldest
    unfold chooseSequence nextSequence
    dsimp only
    rw [← candidate]
    cases env.stat (candidate origin i) with
    | none => rfl
    | some st =>
      dsimp only
      split
      · rfl
      · exact ih (i + 1) _

/-- The name is the one of `GetSuitableFileName`. -/
theorem name_chooseFileName (p : Process) :
    (chooseFileName cfg env origin p).name = (getSuitableFileName cfg env origin p).1 := by
  rw [chooseFileName]
  cases hstat : env.stat origin with
  | none =>
    rw [getSuitableFileName, hstat]
  | some st =>
    dsimp only
    split
    · rename_i hlarge
      rw [name_chooseSequence, getSuitableFileName_of_large hstat hlarge]
    · rename_i hlarge
      rw [getSuitableFileName, hstat]
      dsimp only
      rw [if_neg hlarge]

/-! ### What the choice is for -/

/-- A name that is free, or whose file is not too large. -/
def Suits (cfg : Config) (env : Env) (name : Text) : Prop :=
  ∀ st, env.stat name = some st → st.size < maxLogSize cfg * 1048576

instance (name : Text) : Decidable (Suits cfg env name) :=
  match h : env.stat name with
  | none => isTrue fun st hst => nomatch h.symm.trans hst
  | some st => decidable_of_iff (st.size < maxLogSize cfg * 1048576)
      ⟨fun hsize st' hst => by rw [h] at hst; cases hst; exact hsize, fun hall => hall st h⟩

def candidates (origin : Text) (count : Nat) : List Text := (List.range count).map (candidate origin)

/-- No file of the list was modified before this one. -/
def Oldest (env : Env) (l : List Text) (name : Text) : Prop :=
  ∃ st, env.stat name = some st ∧ ∀ other ∈ l, ∀ st', env.stat other = some st' → st.mtime ≤ st'.mtime

/-- The name is free or its file is not too large, in the end; the numbered names are looked at in their order; a file is
    removed exactly if all are too large, and then it is the oldest one and gives the name. -/
structure Postcondition (cfg : Config) (env : Env) (origin : Text) (r : Nat) (choice : Choice) : Prop where
  suits : choice.removed = some choice.name ∨ choice.removed = none ∧ Suits cfg env choice.name
  inOrder : choice.considered <+: candidates origin r
  removes : ∀ name, choice.removed = some name → name = choice.name ∧
    (∀ x ∈ origin :: candidates origin r, ¬ Suits cfg env x) ∧ Oldest env (origin :: candidates origin r) name
  complete : (∀ x ∈ origin :: candidates origin r, ¬ Suits cfg env x) →
    choice.considered = candidates origin r ∧ choice.removed ≠ none

/-! ### The loop -/

theorem shiftRight_lt_iff {size limit : Nat} : size >>> 20 < limit ↔ size < limit * 1048576 := by
  rw [Nat.shiftRight_eq_div_pow]
  exact Nat.div_lt_iff_lt_mul (Nat.two_pow_pos 20)

theorem suits_of_stat {name : Text} {st : FileStat} (hstat : env.stat name = some st) :
    Suits cfg env name ↔ st.size >>> 20 < maxLogSize cfg := by
  rw [shiftRight_lt_iff]
  constructor
  · exact fun h => h st hstat
  · intro h st' hst
    cases hstat.symm.trans hst
    exact h

theorem suits_of_free {name : Text} (hstat : env.stat name = none) : Suits cfg env name := fun st hst => by
  cases hstat.symm.trans hst

/-- The names from a number on. -/
def candidatesFrom (origin : Text) (i count : Nat) : List Text := (List.range' i count).map (candidate origin)

theorem candidatesFrom_succ (i count : Nat) :
    candidatesFrom origin i (count + 1) = candidate origin i :: candidatesFrom origin (i + 1) count := by
  rw [candidatesFrom, List.range'_succ, List.map_cons, candidatesFrom]

theorem candidatesFrom_zero (count : Nat) : candidatesFrom origin 0 count = candidates origin count := by
  rw [candidatesFrom, candidates, List.range_eq_range']

/-- What the loop finds: the first name that suits, or the oldest file of all. -/
inductive Chosen (cfg : Config) (env : Env) (origin : Text) (count i : Nat) (front : List Text) : Choice → Prop
  | suits (k : Nat) (hk : k < count) (hfirst : ∀ j < k, ¬ Suits cfg env (candidate origin (i + j)))
      (hsuits : Suits cfg env (candidate origin (i + k))) :
      Chosen cfg env origin count i front ⟨candidate origin (i + k), candidatesFrom origin i (k + 1), none⟩
  | full (name : Text) (hfull : ∀ j < count, ¬ Suits cfg env (candidate origin (i + j)))
      (holdest : Oldest env (front ++ candidatesFrom origin i count) name) :
      Chosen cfg env origin count i front ⟨name, candidatesFrom origin i count, some name⟩

/-- The oldest file of more files. -/
theorem Oldest.append {l : List Text} {name other : Text} {st st' : FileStat} (h : Oldest env l name)
    (hstat : env.stat name = some st) (hother : env.stat other = some st') :
    Oldest env (l ++ [other]) (if st'.mtime < st.mtime then other else name) := by
  obtain ⟨st₀, hst₀, hold⟩ := h
  cases hstat.symm.trans hst₀
  have hself : ∀ x ∈ [other], ∀ stx, env.stat x = some stx → stx = st' := by
    intro x hx stx hstx
    rw [List.mem_singleton.mp hx, hother] at hstx
    exact (Option.some.inj hstx).symm
  split
  · rename_i hlt
    refine ⟨st', hother, fun x hx stx hstx => ?_⟩
    rcases List.mem_append.mp hx with hx | hx
    · exact Int.le_trans (Int.le_of_lt hlt) (hold x hx stx hstx)
    · exact Int.le_of_eq (congrArg FileStat.mtime (hself x hx stx hstx).symm)
  · rename_i hnot
    refine ⟨st, hstat, fun x hx stx hstx => ?_⟩
    rcases List.mem_append.mp hx with hx | hx
    · exact hold x hx stx hstx
    · rw [hself x hx stx hstx]
      exact Int.not_lt.mp hnot

/-- A candidate that does not suit comes before the others. -/
theorem Chosen.skip {count i : Nat} {front : List Text} {choice : Choice} (hnot : ¬ Suits cfg env (candidate origin i))
    (h : Chosen cfg env origin count (i + 1) (front ++ [candidate origin i]) choice) :
    Chosen cfg env origin (count + 1) i front { choice with considered := candidate origin i :: choice.considered } := by
  have hoff : ∀ j, i + (j + 1) = i + 1 + j := fun j => by omega
  have hshift : ∀ k, (∀ j < k, ¬ Suits cfg env (candidate origin (i + 1 + j))) →
      ∀ j < k + 1, ¬ Suits cfg env (candidate origin (i + j)) := by
    intro k hall j hj
    cases j with
    | zero => exact hnot
    | succ j =>
      rw [hoff]
      exact hall j (Nat.lt_of_succ_lt_succ hj)
  cases h with
  | suits k hk hfirst hsuits =>
    have hchoice : Chosen cfg env origin (count + 1) i front
        ⟨candidate origin (i + (k + 1)), candidatesFrom origin i (k + 1 + 1), none⟩ :=
      .suits (k + 1) (Nat.succ_lt_succ hk) (hshift k hfirst) (by rw [hoff]; exact hsuits)
    rw [candidatesFrom_succ, hoff] at hchoice
    exact hchoice
  | full name hfull holdest =>
    have hchoice : Chosen cfg env origin (count + 1) i front
        ⟨name, candidatesFrom origin i (count + 1), some name⟩ := by
      refine .full name (hshift count hfull) ?_
      rw [candidatesFrom_succ, List.append_cons]
      exact holdest
    rw [candidatesFrom_succ] at hchoice
    exact hchoice

theorem chooseSequence_chosen (count : Nat) : ∀ {i : Nat} {front : List Text} {oldest : Int × Text} {st : FileStat},
    env.stat oldest.2 = some st → st.mtime = oldest.1 → Oldest env front oldest.2 →
      Chosen cfg env origin count i front (chooseSequence cfg env origin count i oldest) := by
  induction count with
  | zero =>
    intro i front oldest st _ _ hold
    refine .full oldest.2 (fun j hj => absurd hj (Nat.not_lt_zero j)) ?_
    rw [candidatesFrom, List.range'_zero, List.map_nil, List.append_nil]
    exact hold
  | succ count ih =>
    intro i front oldest st hstat hmtime hold
    have hhere : ∀ hsuits : Suits cfg env (candidate origin i), Chosen cfg env origin (count + 1) i front
        ⟨candidate origin i, [candidate origin i], none⟩ := fun hsuits =>
      .suits 0 (Nat.succ_pos count) (fun j hj => absurd hj (Nat.not_lt_zero j)) hsuits
    rw [chooseSequence]
    cases hcandidate : env.stat (candidate origin i) with
    | none => exact hhere (suits_of_free hcandidate)
    | some st' =>
      dsimp only
      split
      · rename_i hsize
        exact hhere ((suits_of_stat hcandidate).mpr hsize)
      · rename_i hsize
        have hlonger := hold.append hstat hcandidate
        refine Chosen.skip (fun hsuits => hsize ((suits_of_stat hcandidate).mp hsuits)) ?_
        rw [hmtime] at hlonger
        split at hlonger
        · rename_i hlt
          rw [if_pos hlt]
          have hnext : Oldest env (front ++ [candidate origin i]) (st'.mtime, candidate origin i).2 := hlonger
          exact ih hcandidate rfl hnext
        · rename_i hlt
          rw [if_neg hlt]
          exact ih hstat hmtime hlonger

/-! ### The postcondition -/

theorem length_candidates (count : Nat) : (candidates origin count).length = count := by
  rw [candidates, List.length_map, List.length_range]

theorem candidates_prefix {k : Nat} (h : k ≤ r) : candidates origin k <+: candidates origin r := by
  have htake : candidates origin k = (candidates origin r).take k := by
    rw [candidates, candidates, ← List.map_take, List.take_range, Nat.min_eq_left h]
  rw [htake]
  exact List.take_prefix k _

theorem mem_candidates {k : Nat} (h : k < r) : candidate origin k ∈ candidates origin r :=
  List.mem_map_of_mem (List.mem_range.mpr h)

theorem postcondition_origin (hsuits : Suits cfg env origin) : Postcondition cfg env origin r ⟨origin, [], none⟩ where
  suits := Or.inr ⟨rfl, hsuits⟩
  inOrder := List.nil_prefix
  removes _ h := nomatch h
  complete h := absurd hsuits (h origin List.mem_cons_self)

/-- The size of the origin is not the limit itself, and where it is larger the loop is as long as it should be, or finds a
    name in time. -/
def FitsLimit (cfg : Config) (env : Env) (origin : Text) (r : Nat) : Prop :=
  ∀ st, env.stat origin = some st → st.size >>> 20 < maxLogSize cfg ∨ st.size >>> 20 > maxLogSize cfg ∧
    (env.indeterminateCount = r ∨ ∃ k, k < env.indeterminateCount ∧ k < r ∧ Suits cfg env (candidate origin k))

/-- Where no file is removed the loop has to end in time. -/
theorem postcondition_candidate_iff {k : Nat} (hsuits : Suits cfg env (candidate origin k)) :
    Postcondition cfg env origin r ⟨candidate origin k, candidates origin (k + 1), none⟩ ↔ k < r := by
  constructor
  · intro h
    have hshort := h.inOrder.length_le
    rwa [length_candidates, length_candidates] at hshort
  · intro hkr
    refine ⟨Or.inr ⟨rfl, hsuits⟩, candidates_prefix hkr, fun name hname => ?_, fun h => ?_⟩
    · cases hname
    · exact absurd hsuits (h _ (List.mem_cons_of_mem origin (mem_candidates hkr)))

/-- A file is removed behind as many names as there should be. -/
theorem postcondition_removed_iff {count : Nat} {name : Text} (hnot : ¬ Suits cfg env origin)
    (hnone : ∀ x ∈ candidates origin count, ¬ Suits cfg env x)
    (holdest : Oldest env (origin :: candidates origin count) name) :
    Postcondition cfg env origin r ⟨name, candidates origin count, some name⟩ ↔ count = r := by
  constructor
  · intro h
    obtain ⟨-, hall, -⟩ := h.removes name rfl
    have hlengths := congrArg List.length (h.complete hall).1
    rwa [length_candidates, length_candidates] at hlengths
  · rintro rfl
    refine ⟨Or.inl rfl, List.prefix_refl _, fun name' hname => ?_, fun _ => ⟨rfl, Option.some_ne_none name⟩⟩
    cases hname
    exact ⟨rfl, List.forall_mem_cons.mpr ⟨hnot, hnone⟩, holdest⟩

/-- The same for the loop. -/
theorem postcondition_chosen_iff {count : Nat} {choice : Choice} (hnot : ¬ Suits cfg env origin)
    (h : Chosen cfg env origin count 0 [origin] choice) :
    Postcondition cfg env origin r choice ↔ count = r ∨ ∃ k, k < count ∧ k < r ∧ Suits cfg env (candidate origin k) := by
  cases h with
  | suits k hk hfirst hsuits =>
    rw [Nat.zero_add] at hsuits ⊢
    replace hfirst : ∀ j < k, ¬ Suits cfg env (candidate origin j) := fun j hj => by
      rw [← Nat.zero_add j]
      exact hfirst j hj
    rw [candidatesFrom_zero, postcondition_candidate_iff hsuits]
    constructor
    · exact fun hkr => Or.inr ⟨k, hk, hkr, hsuits⟩
    · rintro (rfl | ⟨k', hk', hkr', hsuits'⟩)
      · exact hk
      · exact Nat.lt_of_le_of_lt (Nat.le_of_not_lt fun hlt => hfirst k' hlt hsuits') hkr'
  | full name hfull holdest =>
    have hnone : ∀ x ∈ candidates origin count, ¬ Suits cfg env x := by
      intro x hx
      obtain ⟨j, hj, rfl⟩ := List.mem_map.mp hx
      have hcandidate := hfull j (List.mem_range.mp hj)
      rwa [Nat.zero_add] at hcandidate
    rw [candidatesFrom_zero] at holdest ⊢
    rw [postcondition_removed_iff hnot hnone holdest]
    constructor
    · exact Or.inl
    · rintro (heq | ⟨k, hk, -, hsuits⟩)
      · exact heq
      · exact absurd hsuits (hnone _ (mem_candidates hk))

/-- The postcondition holds exactly under this condition. -/
theorem chooseFileName_postcondition_iff {p : Process} (hnumber : p.rollingFileNumber = r) (hpos : 1 ≤ r) (hle : r ≤ 100) :
    Postcondition cfg env origin r (chooseFileName cfg env origin p) ↔ FitsLimit cfg env origin r := by
  have hlength : sequenceLength env p = env.indeterminateCount := by
    rw [sequenceLength, hnumber, if_neg (by omega), if_neg (by omega)]
  rw [chooseFileName, FitsLimit]
  cases hstat : env.stat origin with
  | none =>
    refine ⟨fun _ st hst => ?_, fun _ => postcondition_origin (suits_of_free hstat)⟩
    cases hst
  | some st =>
    have hsuits := @suits_of_stat cfg env origin st hstat
    simp only [Option.some.injEq, forall_eq', hlength]
    rcases Nat.lt_trichotomy (st.size >>> 20) (maxLogSize cfg) with hsmall | heq | hlarge
    · rw [if_neg (by omega)]
      exact ⟨fun _ => Or.inl hsmall, fun _ => postcondition_origin (hsuits.mpr hsmall)⟩
    · rw [if_neg (by omega)]
      constructor
      · intro h
        rcases h.suits with hremoved | ⟨-, horigin⟩
        · cases hremoved
        · exact Or.inl (hsuits.mp horigin)
      · rintro (hsmall | ⟨hlarge, -⟩)
        · omega
        · omega
    · rw [if_pos hlarge]
      have hself : Oldest env [origin] origin := by
        refine ⟨st, hstat, fun other hother st' hst' => ?_⟩
        rw [List.mem_singleton.mp hother, hstat] at hst'
        cases hst'
        exact Int.le_refl _
      have hchosen :=
        @chooseSequence_chosen cfg env origin env.indeterminateCount 0 [origin] (st.mtime, origin) st hstat rfl hself
      have hnot : ¬ Suits cfg env origin := fun h => by
        have hlt := hsuits.mp h
        omega
      rw [postcondition_chosen_iff hnot hchosen]
      constructor
      · exact fun h => Or.inr ⟨hlarge, h⟩
      · rintro (hsmall | ⟨-, h⟩)
        · omega
        · exact h

end

/-- All files are too large, and the one with the number 3 is the oldest. -/
def fullSequenceEnv : Env :=
  { plainEnv with
    stat := fun name => some ⟨2097152, if name = candidate ['a'] 3 then 1 else 2⟩
    indeterminateCount := 10 }

theorem chooseFileName_postcondition_iff_full :
    Postcondition plainConfig fullSequenceEnv ['a'] 10 (chooseFileName plainConfig fullSequenceEnv ['a'] plainProcess) ∧
      (chooseFileName plainConfig fullSequenceEnv ['a'] plainProcess).removed = some "a-003".toList := by
  refine ⟨(chooseFileName_postcondition_iff rfl (by decide) (by decide)).mpr fun st hst => ?_, by decide⟩
  cases hst
  exact Or.inr ⟨by decide, Or.inl rfl⟩

/-- The file `a` has exactly the size of the limit. -/
def limitEnv : Env :=
  { plainEnv with
    stat := fun name => if name = ['a'] then some ⟨1048576, 0⟩ else none
    indeterminateCount := 10 }

/-- Such a file is used further, whatever the loop would come to. -/
theorem not_chooseFileName_postcondition : ¬ ∀ (cfg : Config) (env : Env) (origin : Text) (r : Nat) (p : Process),
    p.rollingFileNumber = r → 1 ≤ r → r ≤ 100 → Postcondition cfg env origin r (chooseFileName cfg env origin p) :=
      fun h => by
  rcases (h plainConfig limitEnv ['a'] 10 plainProcess rfl (by decide) (by decide)).suits with hremoved | ⟨-, hsuits⟩
  · exact absurd hremoved (by decide)
  · exact absurd hsuits (by decide)

end Glog.LogFile
