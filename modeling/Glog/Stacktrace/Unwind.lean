import Mathlib.Data.Seq.Basic
import Glog.Stacktrace.Walk

/-! # Stack traces by the unwinder

With libgcc `_Unwind_Backtrace` calls `GetOneFrame` for each frame. The stack may be corrupted, and its frames go on for
ever; then only what `GetOneFrame` returns ends the walk. -/

namespace Glog.Stacktrace
open Memory

/-! ### The unwinder -/

/-- The instruction pointers of the frames, from the top one on. -/
abbrev Frames := Stream'.Seq Nat

inductive ReasonCode
  | noReason
  | endOfStack
  deriving DecidableEq

/-- `trace_arg_t` -/
structure TraceArg where
  result : Cells Nat
  maxDepth : Int
  skipCount : Int
  count : Nat

/-- What is called for a frame, with its instruction pointer. -/
abbrev TraceFn := Nat → TraceArg → ReasonCode × TraceArg

/-- The function is called for one frame after the other, until it returns another code than `_URC_NO_REASON` or there
are no more frames. -/
inductive Called (trace : TraceFn) : Frames → TraceArg → TraceArg → Prop
  | bottom (arg : TraceArg) : Called trace Stream'.Seq.nil arg arg
  | stop {ip : Nat} {rest : Frames} {arg : TraceArg} : (trace ip arg).1 ≠ .noReason →
      Called trace (Stream'.Seq.cons ip rest) arg (trace ip arg).2
  | next {ip : Nat} {rest : Frames} {arg arg' : TraceArg} : (trace ip arg).1 = .noReason →
      Called trace rest (trace ip arg).2 arg' → Called trace (Stream'.Seq.cons ip rest) arg arg'

/-- `_Unwind_Backtrace`: the argument at the end, if there is one. -/
abbrev UnwindBacktrace := Nat → TraceFn → TraceArg → Option TraceArg

/-- What is documented of `_Unwind_Backtrace` on a stack with these frames. -/
def Backtraces (frames : Frames) (unwindBacktrace : UnwindBacktrace) : Prop :=
  ∀ trace arg arg', Called trace frames arg arg' → ∃ fuel, unwindBacktrace fuel trace arg = some arg'

/-! ### The functions -/

def getOneFrame : TraceFn := fun ip targ =>
  let targ := if 0 < targ.skipCount then { targ with skipCount := targ.skipCount - 1 }
    else { targ with result := targ.result.write targ.count ip, count := targ.count + 1 }
  if (targ.count : Int) = targ.maxDepth then (.endOfStack, targ) else (.noReason, targ)

namespace Libgcc

/-- `GetStackTrace`; `ready_to_run` is set by the static initializer. -/
def getStackTrace (fuel : Nat) (unwindBacktrace : UnwindBacktrace) (readyToRun : Bool) (result : Cells Nat)
    (maxDepth skipCount : Int) : Option (Nat × Cells Nat) :=
  if readyToRun then
    (unwindBacktrace fuel getOneFrame ⟨result, maxDepth, increment skipCount, 0⟩).map fun targ => (targ.count, targ.result)
  else some (0, result)

end Libgcc

/-! ### The calls -/

theorem getOneFrame_skip (ip : Nat) {targ : TraceArg} (h : 0 < targ.skipCount) : getOneFrame ip targ =
    (if (targ.count : Int) = targ.maxDepth then .endOfStack else .noReason,
      { targ with skipCount := targ.skipCount - 1 }) := by
  simp only [getOneFrame, if_pos h]
  split <;> rfl

theorem getOneFrame_store (ip : Nat) {targ : TraceArg} (h : ¬ 0 < targ.skipCount) : getOneFrame ip targ =
    (if ((targ.count + 1 : Nat) : Int) = targ.maxDepth then .endOfStack else .noReason,
      { targ with result := targ.result.write targ.count ip, count := targ.count + 1 }) := by
  simp only [getOneFrame, if_neg h]
  split <;> rfl

/-- There is room for the next frame, or it is skipped. -/
structure HasRoom (depth skip : Nat) (targ : TraceArg) : Prop where
  maxDepth : targ.maxDepth = depth
  skipCount : targ.skipCount = skip
  le : targ.count ≤ depth
  room : skip = 0 → targ.count < depth

/-- The calls end, and the frames that are not skipped have been stored, as long as there has been room. -/
structure Stores (depth skip : Nat) (frames : Frames) (targ targ' : TraceArg) : Prop where
  called : Called getOneFrame frames targ targ'
  count : targ'.count = targ.count + ((frames.drop skip).take (depth - targ.count)).length
  result : targ'.result = targ.result.store targ.count ((frames.drop skip).take (depth - targ.count))

section
variable {depth skip : Nat} {ip : Nat} {rest : Frames} {targ targ' : TraceArg}

theorem stores_nil : Stores depth skip Stream'.Seq.nil targ targ where
  called := .bottom targ
  count := by rw [Stream'.Seq.drop_nil, Stream'.Seq.take_nil]; rfl
  result := by rw [Stream'.Seq.drop_nil, Stream'.Seq.take_nil]; rfl

/-- Without room the walk ends at a frame that is skipped. -/
theorem stores_skip_last (hroom : HasRoom depth (skip + 1) targ) (hfull : targ.count = depth) :
    Stores depth (skip + 1) (Stream'.Seq.cons ip rest) targ (getOneFrame ip targ).2 := by
  have hmax := hroom.maxDepth
  have hskip := hroom.skipCount
  have hnone : depth - targ.count = 0 := by omega
  have hframe := @getOneFrame_skip ip targ (by omega)
  rw [if_pos (by omega)] at hframe
  refine ⟨.stop (by rw [hframe]; exact ReasonCode.noConfusion), ?_, ?_⟩
  · rw [hframe, hnone]
    rfl
  · rw [hframe, hnone]
    rfl

theorem stores_skip (hroom : HasRoom depth (skip + 1) targ) (hmore : targ.count ≠ depth)
    (h : Stores depth skip rest { targ with skipCount := targ.skipCount - 1 } targ') :
    Stores depth (skip + 1) (Stream'.Seq.cons ip rest) targ targ' := by
  have hmax := hroom.maxDepth
  have hskip := hroom.skipCount
  have hframe := @getOneFrame_skip ip targ (by omega)
  rw [if_neg (by omega)] at hframe
  refine ⟨.next (by rw [hframe]) (by rw [hframe]; exact h.called), ?_, ?_⟩
  · rw [Stream'.Seq.drop_succ_cons]
    exact h.count
  · rw [Stream'.Seq.drop_succ_cons]
    exact h.result

/-- The last frame for which there is room. -/
theorem stores_last (hroom : HasRoom depth 0 targ) (hfull : targ.count + 1 = depth) :
    Stores depth 0 (Stream'.Seq.cons ip rest) targ (getOneFrame ip targ).2 := by
  have hmax := hroom.maxDepth
  have hskip := hroom.skipCount
  have hone : depth - targ.count = 0 + 1 := by omega
  have hframe := @getOneFrame_store ip targ (by omega)
  rw [if_pos (by omega)] at hframe
  refine ⟨.stop (by rw [hframe]; exact ReasonCode.noConfusion), ?_, ?_⟩
  · rw [hframe, hone, Stream'.Seq.drop_zero, Stream'.Seq.take_succ_cons]
    rfl
  · rw [hframe, hone, Stream'.Seq.drop_zero, Stream'.Seq.take_succ_cons]
    rfl

theorem stores_more (hroom : HasRoom depth 0 targ) (hmore : targ.count + 1 ≠ depth)
    (h : Stores depth 0 rest { targ with result := targ.result.write targ.count ip, count := targ.count + 1 } targ') :
    Stores depth 0 (Stream'.Seq.cons ip rest) targ targ' := by
  have hmax := hroom.maxDepth
  have hskip := hroom.skipCount
  have hlt := hroom.room rfl
  have hleft : depth - targ.count = depth - (targ.count + 1) + 1 := by omega
  have hframe := @getOneFrame_store ip targ (by omega)
  rw [if_neg (by omega)] at hframe
  refine ⟨.next (by rw [hframe]) (by rw [hframe]; exact h.called), ?_, ?_⟩
  · have hcount := h.count
    rw [Stream'.Seq.drop_zero] at hcount
    dsimp only at hcount
    rw [Stream'.Seq.drop_zero, hleft, Stream'.Seq.take_succ_cons, List.length_cons, hcount]
    omega
  · rw [Stream'.Seq.drop_zero, hleft, Stream'.Seq.take_succ_cons, Cells.store]
    exact h.result

end

/-- The induction is on the calls for which there may be room: a skipped frame is one less to skip, a stored one takes the
place of another. -/
theorem called_getOneFrame (depth k : Nat) : ∀ (skip : Nat) (frames : Frames) (targ : TraceArg),
    skip + (depth - targ.count) ≤ k → HasRoom depth skip targ → ∃ targ', Stores depth skip frames targ targ' := by
  induction k with
  | zero =>
    intro skip frames targ hk hroom
    have hlt := hroom.room (by omega)
    omega
  | succ k ih =>
    intro skip frames targ hk hroom
    have hle := hroom.le
    cases frames using Stream'.Seq.recOn with
    | nil => exact ⟨targ, stores_nil⟩
    | cons ip rest =>
      cases skip with
      | zero =>
        have hlt := hroom.room rfl
        by_cases hfull : targ.count + 1 = depth
        · exact ⟨_, stores_last hroom hfull⟩
        · obtain ⟨targ', hstores⟩ := ih 0 rest
            { targ with result := targ.result.write targ.count ip, count := targ.count + 1 } (by dsimp only; omega)
            ⟨hroom.maxDepth, hroom.skipCount, by dsimp only; omega, fun _ => by dsimp only; omega⟩
          exact ⟨targ', stores_more hroom hfull hstores⟩
      | succ skip =>
        have hskip := hroom.skipCount
        by_cases hfull : targ.count = depth
        · exact ⟨_, stores_skip_last hroom hfull⟩
        · obtain ⟨targ', hstores⟩ := ih skip rest { targ with skipCount := targ.skipCount - 1 } (by dsimp only; omega)
            ⟨hroom.maxDepth, by dsimp only; omega, hle, fun _ => by dsimp only; omega⟩
          exact ⟨targ', stores_skip hroom hfull hstores⟩

namespace Libgcc

theorem getStackTrace_traced {frames : Frames} {unwindBacktrace : UnwindBacktrace}
    (hunwind : Backtraces frames unwindBacktrace) {depth skip : Nat} (hskip : skip < 2 ^ 31 - 1) (result : Cells Nat) :
    ∃ fuel trace, getStackTrace fuel unwindBacktrace true result depth skip = some trace ∧
      Traced ((frames.drop (skip + 1)).take depth) depth result trace := by
  have hincrement := increment_natCast hskip
  have hroom : HasRoom depth (skip + 1) ⟨result, depth, increment skip, 0⟩ := {
    maxDepth := rfl
    skipCount := by
      dsimp only
      exact hincrement
    le := Nat.zero_le depth
    room := fun h => absurd h (Nat.succ_ne_zero skip) }
  obtain ⟨targ, hstores⟩ := called_getOneFrame depth (skip + 1 + depth) (skip + 1) frames _ (Nat.le_refl _) hroom
  obtain ⟨fuel, hfuel⟩ := hunwind _ _ _ hstores.called
  have htraced := traced_store (Stream'.Seq.length_take_le (s := frames.drop (skip + 1)) (n := depth)) result
  refine ⟨fuel, (targ.count, targ.result), ?_, ?_⟩
  · rw [getStackTrace, if_pos rfl, hfuel]
    rfl
  · rw [hstores.count, hstores.result, Nat.zero_add]
    exact htraced

end Libgcc

/-! ### An unwinder -/

/-- The one that goes through the frames and does nothing else. -/
def backtrace : Nat → Frames → TraceFn → TraceArg → Option TraceArg
  | 0, _, _, _ => none
  | fuel + 1, frames, trace, arg =>
    match frames.destruct with
    | none => some arg
    | some (ip, rest) =>
      match trace ip arg with
      | (.noReason, arg) => backtrace fuel rest trace arg
      | (.endOfStack, arg) => some arg

theorem backtrace_cons (fuel : Nat) (ip : Nat) (rest : Frames) (trace : TraceFn) (arg : TraceArg) :
    backtrace (fuel + 1) (Stream'.Seq.cons ip rest) trace arg =
      if (trace ip arg).1 = .noReason then backtrace fuel rest trace (trace ip arg).2 else some (trace ip arg).2 := by
  rw [backtrace, Stream'.Seq.destruct_cons]
  dsimp only
  rcases trace ip arg with ⟨_ | _, arg'⟩ <;> rfl

theorem backtraces_backtrace (frames : Frames) : Backtraces frames fun fuel => backtrace fuel frames := by
  intro trace arg arg' hcalled
  induction hcalled with
  | bottom arg => exact ⟨1, rfl⟩
  | stop hstop =>
    exact ⟨1, (backtrace_cons 0 _ _ trace _).trans (if_neg hstop)⟩
  | next hgo _ ih =>
    obtain ⟨fuel, hfuel⟩ := ih
    exact ⟨fuel + 1, (backtrace_cons fuel _ _ trace _).trans ((if_pos hgo).trans hfuel)⟩

/-! ### The contract -/

/-- Every implementation gives the first `depth` frames after those to be skipped, and writes nothing else. With libgcc
this is so once the static initializer has run; before, there is no trace. -/
theorem getStackTrace_contract (depth skip : Nat) (hskip : skip < 2 ^ 31 - 1) (result : Cells Nat) :
    (∀ (i386 : Bool) (stack : Stack) (sp : Nat),
      Traced (((frames (X86.refused i386) stack (X86.entry stack) sp).drop skip).take depth) depth result
        (X86.getStackTrace i386 stack sp result depth skip)) ∧
    (∀ (linkRegister : Nat) (stack : Stack) (sp : Nat),
      Traced (((frames (fun _ => false) stack (PowerPC.entry linkRegister stack) sp).drop (skip + 1)).take depth)
        depth result
        (PowerPC.getStackTrace linkRegister stack sp result depth skip)) ∧
    (∀ (frames : Frames) (unwindBacktrace : UnwindBacktrace), Backtraces frames unwindBacktrace →
      ∃ fuel trace, Libgcc.getStackTrace fuel unwindBacktrace true result depth skip = some trace ∧
        Traced ((frames.drop (skip + 1)).take depth) depth result trace) ∧
    ∀ (fuel : Nat) (unwindBacktrace : UnwindBacktrace),
      Libgcc.getStackTrace fuel unwindBacktrace false result depth skip = some (0, result) := by
  refine ⟨fun i386 stack sp => ?_, fun linkRegister stack sp => ?_,
    fun _ _ hunwind => Libgcc.getStackTrace_traced hunwind hskip result, fun _ _ => rfl⟩
  · exact walk_traced (X86.refused i386) stack (X86.entry stack) depth sp skip result
  · have htraced := walk_traced (fun _ => false) stack (PowerPC.entry linkRegister stack) depth sp (increment skip) result
    rw [increment_natCast hskip, Int.toNat_natCast] at htraced
    rw [PowerPC.getStackTrace, increment_natCast hskip]
    exact htraced

/-- The frames of `GetStackTrace` itself and of its caller. -/
def twoFrames : Frames := Stream'.Seq.cons 7 (Stream'.Seq.cons 8 Stream'.Seq.nil)

theorem take_twoFrames : (twoFrames.drop (0 + 1)).take 1 = [8] := by
  rw [twoFrames, Stream'.Seq.drop_succ_cons, Stream'.Seq.drop_zero, Stream'.Seq.take_succ_cons, Stream'.Seq.take_zero]

theorem getStackTrace_contract_two : ∃ fuel trace,
    Libgcc.getStackTrace fuel (fun fuel => backtrace fuel twoFrames) true ⟨fun _ => 0, []⟩ (1 : Nat)
    (0 : Nat) = some trace ∧
      Traced [8] 1 ⟨fun _ => 0, []⟩ trace := by
  obtain ⟨-, -, hlibgcc, -⟩ := getStackTrace_contract 1 0 (by decide) ⟨fun _ => 0, []⟩
  have htraced := hlibgcc twoFrames _ (backtraces_backtrace twoFrames)
  rwa [take_twoFrames] at htraced

/-- Before the static initializer has run, libgcc gives no frame, though there is one. -/
theorem not_getStackTrace_contract : ¬ ∀ (readyToRun : Bool) (frames : Frames) (unwindBacktrace : UnwindBacktrace),
    Backtraces frames unwindBacktrace → ∃ fuel trace,
      Libgcc.getStackTrace fuel unwindBacktrace readyToRun ⟨fun _ => 0, []⟩ (1 : Nat) (0 : Nat) = some trace ∧
        Traced ((frames.drop (0 + 1)).take 1) 1 ⟨fun _ => 0, []⟩ trace := by
  intro h
  obtain ⟨fuel, trace, hsome, htraced⟩ := h false twoFrames _ (backtraces_backtrace twoFrames)
  obtain rfl : (0, ⟨fun _ => 0, []⟩) = trace := Option.some.inj hsome
  have hvalues := htraced.values
  rw [take_twoFrames] at hvalues
  cases hvalues

end Glog.Stacktrace
