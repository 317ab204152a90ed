import Glog.Run.Fuel
import Glog.Truncate.Copy

/-! # What is left of a truncated file

The copy reads ahead of what it writes, so every block is read as it was. It ends with the whole tail exactly if every
call on its way does all that it can. -/

namespace Glog.Truncate
open Run

/-! ### The loop -/

/-- The offset that a turn reads at. -/
def readAt (io : Nat → Transfer) (n start : Nat) : Nat → Nat
  | 0 => start
  | i + 1 => min n (readAt io n start i + (io i).asked)

/-- In every turn that reads before the end of the file both calls do all that they can. -/
def Complete (io : Nat → Transfer) (n start : Nat) : Prop := ∀ i, readAt io n start i < n → (io i).Full

/-- The state of a copy of the bytes of `old` from an offset on. -/
structure Copying (io : Nat → Transfer) (old : Bytes) (start : Nat) (s : Copy) : Prop where
  length : s.content.length = old.length
  rest : s.content.drop s.writeOffset = old.drop s.writeOffset
  reads : s.readOffset = readAt io old.length start s.turn
  before : ∀ i < s.turn, readAt io old.length start i < old.length
  behind : s.writeOffset + start ≤ readAt io old.length start s.turn
  full : s.writeOffset + start = readAt io old.length start s.turn ↔ ∀ i < s.turn, (io i).Full
  copied : s.writeOffset + start = readAt io old.length start s.turn →
    s.content.take s.writeOffset = (old.drop start).take s.writeOffset

section
variable {io : Nat → Transfer} {old : Bytes} {n start : Nat} {s t u : Copy}

theorem readAt_le (hstart : start ≤ n) : ∀ i, readAt io n start i ≤ n
  | 0 => hstart
  | _ + 1 => Nat.min_le_left n _

theorem readAt_mono (hstart : start ≤ n) {i j : Nat} (h : i ≤ j) : readAt io n start i ≤ readAt io n start j := by
  induction h with
  | refl => exact Nat.le_refl _
  | step _ ih =>
    refine Nat.le_trans ih (Nat.le_min.mpr ⟨readAt_le hstart _, Nat.le_add_right _ _⟩)

theorem copying_start : Copying io old start ⟨old, start, 0, 0⟩ where
  length := rfl
  rest := rfl
  reads := rfl
  before i hi := absurd hi (Nat.not_lt_zero i)
  behind := Nat.le_of_eq (Nat.zero_add start)
  full := ⟨fun _ i hi => absurd hi (Nat.not_lt_zero i), fun _ => Nat.zero_add start⟩
  copied _ := rfl

/-- What a turn reads is as it was. -/
theorem Copying.block (h : Copying io old start s) {block : Bytes}
    (hread : pread s.content s.readOffset (io s.turn) = some block) :
    (io s.turn).bytesin ≠ none ∧ block = (old.drop (readAt io old.length start s.turn)).take (io s.turn).asked := by
  rw [h.reads] at hread
  obtain ⟨hbytesin, hblock⟩ := pread_eq_some hread
  obtain ⟨ahead, hahead⟩ := Nat.exists_eq_add_of_le (Nat.le_trans (Nat.le_add_right _ start) h.behind)
  have hsame : s.content.drop (readAt io old.length start s.turn) = old.drop (readAt io old.length start s.turn) := by
    rw [hahead, ← List.drop_drop, ← List.drop_drop, h.rest]
  exact ⟨hbytesin, by rw [hblock, hsame]⟩

theorem Copying.next (h : Copying io old start s) (hturn : copyTurn io s = .ok (.again u)) : Copying io old start u := by
  obtain ⟨block, missing, hread, hblock, hmissing, rfl⟩ := copyTurn_again hturn
  obtain ⟨hbytesin, heq⟩ := h.block hread
  have hlength : block.length = min (io s.turn).asked (old.length - readAt io old.length start s.turn) := by
    rw [heq, List.length_take, List.length_drop]
  have hnext : readAt io old.length start (s.turn + 1) = readAt io old.length start s.turn + block.length := by
    rw [readAt, hlength]
    omega
  have hwritten : (block.take (block.length - missing)).length = block.length - missing := by
    rw [List.length_take]
    omega
  have hbehind := h.behind
  have hinside : s.writeOffset ≤ s.content.length := by
    have hlt := h.length
    omega
  have hfull : s.writeOffset + (block.length - missing) + start = readAt io old.length start (s.turn + 1) ↔
      s.writeOffset + start = readAt io old.length start s.turn ∧ missing = 0 := by
    rw [hnext]
    omega
  refine ⟨?_, ?_, ?_, ?_, ?_, ?_, ?_⟩
  · rw [length_overwrite (by rw [hwritten, h.length]; omega)]
    exact h.length
  · dsimp only
    rw [drop_overwrite hinside, ← List.drop_drop, h.rest, List.drop_drop]
  · dsimp only
    rw [hnext, h.reads, Int.natCast_add]
  · intro i hi
    rcases Nat.lt_succ_iff_lt_or_eq.mp hi with hi | rfl
    · exact h.before i hi
    · omega
  · dsimp only
    rw [hnext, hwritten]
    omega
  · dsimp only
    rw [hwritten, hfull, h.full]
    constructor
    · rintro ⟨hall, rfl⟩ i hi
      rcases Nat.lt_succ_iff_lt_or_eq.mp hi with hi | rfl
      · exact hall i hi
      · exact ⟨hbytesin, hmissing⟩
    · intro hall
      have hlast := (hall s.turn (Nat.lt_succ_self s.turn)).written
      rw [hmissing] at hlast
      exact ⟨fun i hi => hall i (Nat.lt_succ_of_lt hi), Option.some.inj hlast⟩
  · dsimp only
    rw [hwritten]
    intro hexact
    obtain ⟨hsame, rfl⟩ := hfull.mp hexact
    have hblock' : block = ((old.drop start).drop s.writeOffset).take block.length := by
      rw [List.drop_drop, Nat.add_comm, hsame]
      conv => lhs; rw [heq]
      rw [hlength, ← List.length_drop, ← List.take_eq_take_min]
    rw [Nat.sub_zero, List.take_length, take_overwrite hinside, h.copied hsame, List.take_add, ← hblock']

theorem copying_of_visits (h : Visits (copyTurn io) ⟨old, start, 0, 0⟩ s) : Copying io old start s := by
  induction h with
  | start => exact copying_start
  | again _ hturn ih => exact ih.next hturn

/-- Where the loop ends, the tail is written as a whole exactly if every call did all that it could. -/
theorem Copying.complete_iff (h : Copying io old start s) (hstart : start ≤ old.length) {r : Except Copy Copy}
    (hend : Turn.result (copyTurn io s) = some r) : s.writeOffset + start = old.length ↔ Complete io old.length start := by
  have hle := @readAt_le io old.length start hstart s.turn
  have hbehind := h.behind
  constructor
  · intro hwhole i hi
    have hlast : readAt io old.length start s.turn = old.length := by omega
    rcases Nat.lt_or_ge i s.turn with hlt | hge
    · exact h.full.mp (hwhole.trans hlast.symm) i hlt
    · have hmono := @readAt_mono io old.length start hstart _ _ hge
      omega
  · intro hcomplete
    have hexact := h.full.mpr fun i hi => hcomplete i (h.before i hi)
    have hlast : readAt io old.length start s.turn = old.length := by
      refine Nat.le_antisymm hle (Nat.le_of_not_lt fun hlt => ?_)
      obtain ⟨hbytesin, hmissing⟩ := hcomplete s.turn hlt
      rcases (copyTurn_result hend).2 with hnone | hnil | hnone
      · rw [h.reads, pread_eq_none] at hnone
        exact hbytesin hnone
      · have hlength := congrArg List.length (h.block hnil).2
        have hasked := Transfer.asked_pos hbytesin
        rw [List.length_nil, List.length_take, List.length_drop] at hlength
        omega
      · rw [hmissing] at hnone
        cases hnone
    rw [hexact, hlast]

theorem copy_ends : Ends (copyTurn io) ⟨old, start, 0, 0⟩ := by
  refine ends_of_decreasing (fun s => old.length - readAt io old.length start s.turn) fun s u hvisits hturn => ?_
  have hcopying := copying_of_visits hvisits
  have hbefore := (hcopying.next hturn).before s.turn
  obtain ⟨block, missing, hread, hblock, hmissing, rfl⟩ := copyTurn_again hturn
  have hasked := Transfer.asked_pos (hcopying.block hread).1
  have hlt := hbefore (Nat.lt_succ_self s.turn)
  dsimp only [readAt]
  omega

end

/-! ### The function -/

/-- The path can be opened and is that of a regular file. -/
structure Env.Regular (env : Env) : Prop where
  opened : env.opened = .ok
  fstat : env.fstat = true
  regular : env.regular = true

/-- What the file holds when the function returns. -/
def Returns (env : Env) (limit keep : UInt64) (content final : Bytes) : Prop :=
  ∃ fuel, truncateLogFile fuel env limit keep content = some final

/-- A file that is not longer than one of the bounds is unchanged, and the last `keep` bytes of another one are where they
    were or where the copy puts them. -/
def Retained (limit keep : UInt64) (content final : Bytes) : Prop :=
  if content.length ≤ limit.toNat ∨ content.length ≤ keep.toNat then final = content
  else ∀ p, content.length - keep.toNat ≤ p → p < content.length →
    final[p]? = content[p]? ∨ final[p - (content.length - keep.toNat)]? = content[p]?

section
variable {env : Env} {limit keep : UInt64} {old final : Bytes}

theorem offT_cases (x : Int) : x < (2 ^ 63 : Nat) ∧ offT x = x ∨ (2 ^ 63 : Nat) ≤ x ∧ offT x = x - (2 ^ 64 : Nat) := by
  unfold offT
  split <;> omega

theorem offT_of_lt {x : Nat} (h : x < 2 ^ 63) : offT x = x := if_pos (by omega)

theorem offT_neg (h : 2 ^ 63 ≤ keep.toNat) : offT keep.toNat < 0 := by
  have hlt := keep.toNat_lt
  have hcases := offT_cases keep.toNat
  omega

/-- A file is left as it is if an `off_t` says that it is not longer than one of the bounds. -/
theorem returns_of_short (hregular : env.Regular)
    (h : (old.length : Int) ≤ offT limit.toNat ∨ (old.length : Int) ≤ offT keep.toNat) :
    Returns env limit keep old final ↔ final = old := by
  have heq : ∀ fuel, truncateLogFile fuel env limit keep old = some old := by
    intro fuel
    simp only [truncateLogFile, hregular.opened, hregular.fstat, hregular.regular, Bool.true_eq_false, or_self, if_false]
    split
    · rfl
    · rename_i hlimit
      rw [if_pos (h.resolve_left hlimit)]
  constructor
  · rintro ⟨fuel, hfinal⟩
    rw [heq] at hfinal
    exact (Option.some.inj hfinal).symm
  · rintro rfl
    exact ⟨0, heq 0⟩

/-- Otherwise it is what the loop leaves. -/
theorem returns_of_loop (hregular : env.Regular) (hlimit : ¬ (old.length : Int) ≤ offT limit.toNat)
    (hkeep : ¬ (old.length : Int) ≤ offT keep.toNat) {s : Copy} {r : Except Copy Copy}
    (hvisits : Visits (copyTurn env.transfer) ⟨old, offT (old.length - offT keep.toNat), 0, 0⟩ s)
    (hend : Turn.result (copyTurn env.transfer s) = some r) :
    Returns env limit keep old final ↔ final = if env.ftruncate then s.content.take s.writeOffset else s.content := by
  obtain ⟨enough, hloop⟩ := loop_eq_some_iff.mpr ⟨s, hvisits, hend⟩
  have heq : ∀ fuel, truncateLogFile fuel env limit keep old =
      (loop (copyTurn env.transfer) fuel ⟨old, offT (old.length - offT keep.toNat), 0, 0⟩).map fun result =>
        if env.ftruncate then (stopped result).content.take (stopped result).writeOffset else (stopped result).content := by
    intro fuel
    simp only [truncateLogFile, hregular.opened, hregular.fstat, hregular.regular, Bool.true_eq_false, or_self, if_false,
      if_neg hlimit, if_neg hkeep]
  have hstopped := (copyTurn_result hend).1
  constructor
  · rintro ⟨fuel, hfinal⟩
    rw [heq] at hfinal
    obtain ⟨r', hr', rfl⟩ := Option.map_eq_some_iff.mp hfinal
    have hsame := steady_loop (copyTurn env.transfer) ⟨old, offT (old.length - offT keep.toNat), 0, 0⟩
    have hmore := hsame _ _ _ (Nat.le_max_left fuel enough) hr'
    rw [hsame _ _ _ (Nat.le_max_right fuel enough) hloop] at hmore
    rw [← Option.some.inj hmore, hstopped]
  · rintro rfl
    exact ⟨enough, by rw [heq, hloop, Option.map_some, hstopped]⟩

/-- A file longer than both bounds is copied; the copy ends. -/
theorem returns_of_long (hregular : env.Regular) (hn : old.length < 2 ^ 63)
    (hlimit : ¬ (old.length : Int) ≤ offT limit.toNat)
    (hkeep : keep.toNat < old.length) : ∃ s r, Copying env.transfer old (old.length - keep.toNat) s ∧
      Turn.result (copyTurn env.transfer s) = some r ∧ ∀ final, Returns env limit keep old final ↔
        final = if env.ftruncate then s.content.take s.writeOffset else s.content := by
  have hoffset : offT (old.length - offT keep.toNat) = (old.length - keep.toNat : Nat) := by
    rw [offT_of_lt (Nat.lt_trans hkeep hn), ← Int.natCast_sub (Nat.le_of_lt hkeep)]
    exact offT_of_lt (by omega)
  obtain ⟨fuel, r, hloop⟩ := @copy_ends env.transfer old (old.length - keep.toNat)
  obtain ⟨s, hvisits, hend⟩ := loop_eq_some_iff.mp ⟨fuel, hloop⟩
  refine ⟨s, r, copying_of_visits hvisits, hend, fun final => ?_⟩
  rw [← hoffset] at hvisits
  refine returns_of_loop hregular hlimit ?_ hvisits hend
  rw [offT_of_lt (Nat.lt_trans hkeep hn)]
  omega

/-- The first turn may be the last one. -/
theorem ends_of_read {io : Nat → Transfer} {content : Bytes} {offset : Int}
    (h : pread content offset (io 0) = none ∨ pread content offset (io 0) = some []) :
    ∃ r, Turn.result (copyTurn io ⟨content, offset, 0, 0⟩) = some r := by
  rcases h with h | h
  · exact ⟨.error ⟨content, offset, 0, 0⟩, by simp only [copyTurn, h, Turn.result]⟩
  · exact ⟨.ok ⟨content, offset, 0, 0⟩, by simp only [copyTurn, h, Turn.result, List.length_nil, if_true]⟩

/-- Where `keep` is negative as an `off_t`, the loop reads behind the end, and nothing is kept. -/
theorem returns_of_negative (hregular : env.Regular) (hn : old.length < 2 ^ 63)
    (hlimit : ¬ (old.length : Int) ≤ offT limit.toNat)
    (hkeep : 2 ^ 63 ≤ keep.toNat) : Returns env limit keep old final ↔ final = if env.ftruncate then [] else old := by
  have hneg := offT_neg hkeep
  have hlt := keep.toNat_lt
  have hread : pread old (offT (old.length - offT keep.toNat)) (env.transfer 0) = none ∨
      pread old (offT (old.length - offT keep.toNat)) (env.transfer 0) = some [] := by
    unfold pread
    split
    · exact Or.inl rfl
    · rename_i hoffset
      have hcases := offT_cases (old.length - offT keep.toNat)
      have hbound := offT_cases keep.toNat
      have hbehind : old.length ≤ (offT (old.length - offT keep.toNat)).toNat := by omega
      rw [List.drop_of_length_le hbehind]
      cases (env.transfer 0).bytesin with
      | none => exact Or.inl rfl
      | some more => exact Or.inr (by rw [Option.map_some, List.take_nil])
  obtain ⟨r, hr⟩ := ends_of_read hread
  have hloop := @returns_of_loop env limit keep old final hregular hlimit (by omega) _ r .start hr
  rwa [List.take_zero] at hloop

/-- What the loop has written is the tail, as far as it goes. -/
theorem Copying.take_of_whole {io : Nat → Transfer} {start : Nat} {s : Copy} (h : Copying io old start s)
    (hstart : start ≤ old.length) (hwhole : s.writeOffset + start = old.length) :
    s.content.take s.writeOffset = old.drop start := by
  have hbehind := h.behind
  have hle := @readAt_le io old.length start hstart s.turn
  rw [h.copied (by omega), List.take_of_length_le]
  rw [List.length_drop]
  omega

/-- Without an error the file holds its last `keep` bytes. -/
theorem truncateLogFile_tail (hregular : env.Regular) (hn : old.length < 2 ^ 63) (hlimit : limit.toNat < 2 ^ 63)
    (hkeep : keep.toNat < 2 ^ 63) (hio : ∀ i, (env.transfer i).Full) (hftruncate : env.ftruncate = true) :
    Returns env limit keep old final ↔
      final = if limit.toNat < old.length ∧ keep.toNat < old.length then old.drop (old.length - keep.toNat) else old := by
  have hlimitT := offT_of_lt hlimit
  have hkeepT := offT_of_lt hkeep
  split
  · rename_i hlong
    obtain ⟨s, r, hcopying, hend, hreturns⟩ := @returns_of_long env limit keep old hregular hn (by omega) hlong.2
    have hwhole := (hcopying.complete_iff (Nat.sub_le old.length keep.toNat) hend).mpr fun i _ => hio i
    rw [hreturns, hftruncate, if_pos rfl, hcopying.take_of_whole (Nat.sub_le _ _) hwhole]
  · rename_i hshort
    exact returns_of_short hregular (by omega)

/-- A regular file and calls that do all they can. -/
def plainEnv (transfer : Nat → Transfer) : Env := ⟨.ok, true, true, true, transfer, true⟩

/-- Three bytes, of which two are kept; the first `pread` returns one. -/
theorem truncateLogFile_tail_two : Returns (plainEnv fun _ => ⟨some 0, some 0⟩) 2 2 [1, 2, 3] [2, 3] :=
  (truncateLogFile_tail ⟨rfl, rfl, rfl⟩ (by decide) (by decide) (by decide)
    (fun _ => ⟨Option.some_ne_none 0, rfl⟩) rfl).mpr (by decide)

/-- The bounds are values of an `off_t` as far as they are needed, and in a file that is longer than both every call that
    copies does all that it can. -/
def Kept (limit keep : UInt64) (n : Nat) (io : Nat → Transfer) : Prop :=
  n = 0 ∨ (n ≤ limit.toNat ∧ limit.toNat < 2 ^ 63) ∨ (n ≤ keep.toNat ∧ keep.toNat < 2 ^ 63) ∨
    (limit.toNat < n ∧ keep.toNat < n ∧ Complete io n (n - keep.toNat))

theorem retained_of_short (h : old.length ≤ limit.toNat ∨ old.length ≤ keep.toNat) :
    Retained limit keep old final ↔ final = old := by
  rw [Retained, if_pos h]

theorem retained_of_long (hlimit : limit.toNat < old.length) (hkeep : keep.toNat < old.length) :
    Retained limit keep old final ↔
    ∀ p, old.length - keep.toNat ≤ p → p < old.length →
      final[p]? = old[p]? ∨ final[p - (old.length - keep.toNat)]? = old[p]? := by
  rw [Retained, if_neg (by omega)]

theorem retained_of_kept (hregular : env.Regular) (hn : old.length < 2 ^ 63) (h : Kept limit keep old.length env.transfer) :
    ∃ final, Returns env limit keep old final ∧ Retained limit keep old final := by
  rcases h with hzero | ⟨hle, hlimit⟩ | ⟨hle, hkeep⟩ | ⟨hlimit, hkeep, hcomplete⟩
  · have hnil := List.length_eq_zero_iff.mp hzero
    have hretained : ∀ final, final = [] → Retained limit keep old final := fun final hfinal =>
      (retained_of_short (Or.inl (by omega))).mpr (hfinal.trans hnil.symm)
    by_cases hshort : (old.length : Int) ≤ offT limit.toNat ∨ (old.length : Int) ≤ offT keep.toNat
    · exact ⟨old, (returns_of_short hregular hshort).mpr rfl, hretained old hnil⟩
    · have hcases := offT_cases keep.toNat
      refine ⟨_, (returns_of_negative hregular hn (fun hle => hshort (Or.inl hle)) (by omega)).mpr rfl, hretained _ ?_⟩
      rw [hnil, ite_self]
  · have hlimitT := offT_of_lt hlimit
    exact ⟨old, (returns_of_short hregular (by omega)).mpr rfl, (retained_of_short (Or.inl hle)).mpr rfl⟩
  · have hkeepT := offT_of_lt hkeep
    exact ⟨old, (returns_of_short hregular (by omega)).mpr rfl, (retained_of_short (Or.inr hle)).mpr rfl⟩
  · have hlimitT := @offT_of_lt limit.toNat (Nat.lt_trans hlimit hn)
    obtain ⟨s, r, hcopying, hend, hreturns⟩ := @returns_of_long env limit keep old hregular hn (by omega) hkeep
    have hwhole := (hcopying.complete_iff (Nat.sub_le _ _) hend).mpr hcomplete
    have htail := hcopying.take_of_whole (Nat.sub_le _ _) hwhole
    refine ⟨_, (hreturns _).mpr rfl, (retained_of_long hlimit hkeep).mpr fun p hp hlt => Or.inr ?_⟩
    have hmoved : (s.content.take s.writeOffset)[p - (old.length - keep.toNat)]? = old[p]? := by
      rw [htail, List.getElem?_drop, Nat.add_sub_cancel' hp]
    split
    · exact hmoved
    · rw [← hmoved, List.getElem?_take_of_lt (by omega)]

theorem kept_of_retained (hregular : env.Regular) (hn : old.length < 2 ^ 63) (hftruncate : env.ftruncate = true)
    (hreturns : Returns env limit keep old final) (hretained : Retained limit keep old final) :
    Kept limit keep old.length env.transfer := by
  have hlimitT := offT_cases limit.toNat
  have hlimit_lt := limit.toNat_lt
  refine Classical.byContradiction fun hnot => ?_
  simp only [Kept, not_or] at hnot
  obtain ⟨hzero, hshort, hshort', hlong⟩ := hnot
  rcases Nat.lt_or_ge keep.toNat (2 ^ 63) with hkeep | hkeep
  · have hkeep_lt : keep.toNat < old.length := by omega
    obtain ⟨s, r, hcopying, hend, hiff⟩ := @returns_of_long env limit keep old hregular hn (by omega) hkeep_lt
    rw [hiff, hftruncate, if_pos rfl] at hreturns
    have hcomplete := hcopying.complete_iff (Nat.sub_le _ _) hend
    have hbehind := hcopying.behind
    have hle := @readAt_le env.transfer old.length _ (Nat.sub_le old.length keep.toNat) s.turn
    have hlength : final.length ≤ s.writeOffset := by
      rw [hreturns]
      exact List.length_take_le _ _
    by_cases hlimit : old.length ≤ limit.toNat
    · have hsame := (retained_of_short (Or.inl hlimit)).mp hretained
      rw [hsame] at hlength
      omega
    · -- The last byte is missing.
      have hlost : s.writeOffset + (old.length - keep.toNat) ≠ old.length := fun hwhole =>
        hlong ⟨by omega, hkeep_lt, hcomplete.mp hwhole⟩
      have hlast := (retained_of_long (by omega) hkeep_lt).mp hretained (old.length - 1) (by omega) (by omega)
      rw [List.getElem?_eq_none (show final.length ≤ old.length - 1 by omega),
        List.getElem?_eq_none (show final.length ≤ old.length - 1 - (old.length - keep.toNat) by omega), or_self,
        eq_comm, List.getElem?_eq_none_iff] at hlast
      omega
  · rw [returns_of_negative hregular hn (by omega) hkeep, hftruncate, if_pos rfl] at hreturns
    have hsame := (retained_of_short (Or.inr (by omega))).mp hretained
    rw [← hsame, hreturns] at hzero
    exact hzero rfl

/-- The bytes that are to be kept are kept exactly under this condition. -/
theorem truncateLogFile_retained_iff (hregular : env.Regular) (hn : old.length < 2 ^ 63) :
    (Kept limit keep old.length env.transfer → ∃ final, Returns env limit keep old final ∧ Retained limit keep old final) ∧
      (env.ftruncate = true → (∃ final, Returns env limit keep old final ∧ Retained limit keep old final) →
        Kept limit keep old.length env.transfer) :=
  ⟨retained_of_kept hregular hn, fun hftruncate ⟨_, hreturns, hretained⟩ =>
    kept_of_retained hregular hn hftruncate hreturns hretained⟩

theorem truncateLogFile_retained_iff_two :
    ∃ final, Returns (plainEnv fun _ => ⟨some 0, some 0⟩) 1 2 [1, 2, 3] final ∧ Retained 1 2 [1, 2, 3] final :=
  (truncateLogFile_retained_iff ⟨rfl, rfl, rfl⟩ (by decide)).1
    (Or.inr (Or.inr (Or.inr ⟨by decide, by decide, fun _ _ => ⟨Option.some_ne_none 0, rfl⟩⟩)))

/-- The first `pwrite` fails, and the file is cut off where it stands: at its beginning. -/
theorem not_truncateLogFile_retained : ¬ ∀ (env : Env) (limit keep : UInt64) (old : Bytes), env.Regular →
    env.ftruncate = true →
    old.length < 2 ^ 63 → ∃ final, Returns env limit keep old final ∧ Retained limit keep old final := fun h => by
  have hregular : (plainEnv fun _ => ⟨some 0, none⟩).Regular := ⟨rfl, rfl, rfl⟩
  obtain ⟨final, hreturns, hretained⟩ := h (plainEnv fun _ => ⟨some 0, none⟩) 1 2 [1, 2, 3] hregular rfl (by decide)
  rcases kept_of_retained hregular (by decide) rfl hreturns hretained with hzero | ⟨hle, -⟩ | ⟨hle, -⟩ | ⟨-, -, hcomplete⟩
  · exact absurd hzero (by decide)
  · exact absurd hle (by decide)
  · exact absurd hle (by decide)
  · exact absurd (hcomplete 0 (by decide)).written (by decide)

end

end Glog.Truncate
