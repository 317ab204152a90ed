import Mathlib.Algebra.GroupWithZero.Nat
import Glog.Memory.Cells

/-! # Stack traces by frame pointers

On x86 and on PowerPC `GetStackTrace` follows the links of the frames. Each link has to go up in the memory, so the walk
ends, whatever the memory holds. Addresses are numbers, and 0 is the null pointer. -/

namespace Glog.Stacktrace
open Memory

/-! ### What a stack trace is -/

/-- The result that is returned with the number of addresses: these, not more than `maxDepth` of them, and nothing else
has been written. -/
structure Traced (expected : List Nat) (maxDepth : Nat) (result : Cells Nat) (trace : Nat × Cells Nat) : Prop where
  le : trace.1 ≤ maxDepth
  writes : Writes 0 trace.1 result trace.2
  values : trace.2.slice 0 trace.1 = expected

theorem traced_store {expected : List Nat} {maxDepth : Nat} (hle : expected.length ≤ maxDepth) (result : Cells Nat) :
    Traced expected maxDepth result (expected.length, result.store 0 expected) where
  le := hle
  writes := store_writes.mono (Nat.le_refl 0) (Nat.le_of_eq (Nat.zero_add _))
  values := slice_store 0

/-! ### The walk -/

/-- The memory, in words of the size of a pointer. -/
structure Stack where
  wordSize : Nat
  word : Nat → Nat
  word_lt : ∀ address, word address < 256 ^ wordSize

/-- `NextStackFrame<true>`; an implementation may refuse more addresses. -/
def nextStackFrame (refused : Nat → Bool) (stack : Stack) (oldSp : Nat) : Nat :=
  let newSp := stack.word oldSp
  -- an older frame is at a greater address, and not too far away
  if newSp ≤ oldSp then 0
  else if 100000 < newSp - oldSp then 0
  else if newSp &&& (stack.wordSize - 1) ≠ 0 then 0
  else if refused newSp then 0
  else newSp

/-- The addresses that are left above a frame. -/
def Stack.above (stack : Stack) (sp : Nat) : Nat := if sp = 0 then 0 else 1 + (256 ^ stack.wordSize - sp)

theorem nextStackFrame_eq (refused : Nat → Bool) (stack : Stack) (oldSp : Nat) :
    nextStackFrame refused stack oldSp = 0 ∨
      oldSp < nextStackFrame refused stack oldSp ∧ nextStackFrame refused stack oldSp < 256 ^ stack.wordSize := by
  have hlt := stack.word_lt oldSp
  unfold nextStackFrame
  dsimp only
  repeat' split
  all_goals omega

theorem above_next (refused : Nat → Bool) (stack : Stack) {sp : Nat} (hsp : sp ≠ 0) :
    stack.above (nextStackFrame refused stack sp) < stack.above sp := by
  rw [Stack.above, Stack.above, if_neg hsp]
  rcases nextStackFrame_eq refused stack sp with h | ⟨hup, hlt⟩
  · rw [if_pos h]
    omega
  · rw [if_neg (by omega)]
    omega

section
variable (refused : Nat → Bool) (stack : Stack) (entry : Nat → Option Nat)

/-- The loop of `GetStackTrace`, with `sp`, `n` and `skip_count`; it breaks at a frame without an entry. -/
def walk (maxDepth : Int) (sp n : Nat) (skipCount : Int) (result : Cells Nat) : Nat × Cells Nat :=
  if sp ≠ 0 ∧ (n : Int) < maxDepth then
    match entry sp with
    | none => (n, result)
    | some address =>
      if 0 < skipCount then walk maxDepth (nextStackFrame refused stack sp) n (skipCount - 1) result
      else walk maxDepth (nextStackFrame refused stack sp) (n + 1) skipCount (result.write n address)
  else (n, result)
termination_by stack.above sp
decreasing_by
  all_goals exact above_next refused stack (by omega)

/-- The entries of the frames that the links lead to. -/
def frames (sp : Nat) : List Nat :=
  if sp ≠ 0 then
    match entry sp with
    | none => []
    | some address => address :: frames (nextStackFrame refused stack sp)
  else []
termination_by stack.above sp
decreasing_by exact above_next refused stack (by omega)

theorem frames_of_none {sp : Nat} (h : sp = 0 ∨ entry sp = none) : frames refused stack entry sp = [] := by
  rw [frames]
  rcases h with rfl | h
  · rfl
  · rw [h]
    split <;> rfl

theorem frames_of_some {sp address : Nat} (hsp : sp ≠ 0) (h : entry sp = some address) :
    frames refused stack entry sp = address :: frames refused stack entry (nextStackFrame refused stack sp) := by
  conv_lhs => rw [frames]
  rw [if_pos hsp, h]

/-- The loop stores the entries that it does not skip, as long as there is room. -/
theorem walk_eq (maxDepth : Int) (sp n : Nat) (skipCount : Int) (result : Cells Nat) :
    walk refused stack entry maxDepth sp n skipCount result =
      (n + (((frames refused stack entry sp).drop skipCount.toNat).take (maxDepth.toNat - n)).length,
        result.store n (((frames refused stack entry sp).drop skipCount.toNat).take (maxDepth.toNat - n))) := by
  fun_induction walk refused stack entry maxDepth sp n skipCount result with
  | case1 sp n skipCount result h hentry =>
    rw [frames_of_none refused stack entry (Or.inr hentry), List.drop_nil, List.take_nil]
    rfl
  | case2 sp n skipCount result h address hentry hskip ih =>
    have hnat : skipCount.toNat = (skipCount - 1).toNat + 1 := by omega
    rw [ih, frames_of_some refused stack entry h.1 hentry, hnat, List.drop_succ_cons]
  | case3 sp n skipCount result h address hentry hskip ih =>
    have hnat : skipCount.toNat = 0 := by omega
    have hroom : maxDepth.toNat - n = maxDepth.toNat - (n + 1) + 1 := by omega
    rw [ih, frames_of_some refused stack entry h.1 hentry, hnat, hroom, List.drop_zero, List.drop_zero,
      List.take_succ_cons, List.length_cons, Cells.store, Nat.add_right_comm, Nat.add_assoc]
  | case4 sp n skipCount result h =>
    by_cases hsp : sp = 0
    · rw [frames_of_none refused stack entry (Or.inl hsp), List.drop_nil, List.take_nil]
      rfl
    · have hroom : maxDepth.toNat - n = 0 := by omega
      rw [hroom, List.take_zero]
      rfl

end

/-- A walk from the beginning. -/
theorem walk_traced (refused : Nat → Bool) (stack : Stack) (entry : Nat → Option Nat) (maxDepth : Nat) (sp : Nat)
    (skipCount : Int) (result : Cells Nat) :
    Traced (((frames refused stack entry sp).drop skipCount.toNat).take maxDepth) maxDepth result
      (walk refused stack entry maxDepth sp 0 skipCount result) := by
  have htraced := traced_store (List.length_take_le maxDepth ((frames refused stack entry sp).drop skipCount.toNat)) result
  rw [walk_eq, Int.toNat_natCast, Nat.sub_zero, Nat.zero_add]
  exact htraced

/-- An `int` that is incremented. -/
def increment (count : Int) : Int := Int.bmod (count + 1) (2 ^ 32)

theorem increment_natCast {count : Nat} (h : count < 2 ^ 31 - 1) : increment count = (count + 1 : Nat) := by
  rw [increment, Int.bmod_eq_of_le (by omega) (by omega)]
  rfl

/-! ### The two implementations -/

namespace X86

/-- On i386 `NextStackFrame` refuses the last two pages. -/
def refused (i386 : Bool) (newSp : Nat) : Bool := i386 && 0xffffe000 ≤ newSp

/-- `*(sp + 1)`, where it is not null. -/
def entry (stack : Stack) (sp : Nat) : Option Nat :=
  if stack.word (sp + stack.wordSize) = 0 then none else some (stack.word (sp + stack.wordSize))

def getStackTrace (i386 : Bool) (stack : Stack) (sp : Nat) (result : Cells Nat) (maxDepth skipCount : Int) :
    Nat × Cells Nat :=
  walk (refused i386) stack (entry stack) maxDepth sp 0 skipCount result

end X86

namespace PowerPC

/-- The link register is saved in `sp[2]` or `sp[1]`, as the ABI has it. -/
def entry (linkRegister : Nat) (stack : Stack) (sp : Nat) : Option Nat :=
  some (stack.word (sp + linkRegister * stack.wordSize))

def getStackTrace (linkRegister : Nat) (stack : Stack) (sp : Nat) (result : Cells Nat) (maxDepth skipCount : Int) :
    Nat × Cells Nat :=
  -- the link register of the top entry is not set
  walk (fun _ => false) stack (entry linkRegister stack) maxDepth sp 0 (increment skipCount) result

end PowerPC

end Glog.Stacktrace
