import Glog.Demangle.Progress

/-! # The demangler: entry point and termination

The parse functions run as the family `body`; `parse` is its total run. -/

namespace Glog.Demangle
open Backtrack

/-- Records a call of a parse function. -/
def noteCall (f : Func) (s : State) (m : Mem) : Mem := m.note (.call f s)

/-- A parse function, with as much recursion as it needs. -/
def parse (mangled : CString) (f : Func) : P :=
  run noteCall (body mangled) State.mangledCur mangled.length rank width f

/-- `InitState`; `out` is `none` for `nullptr`. -/
def initState (out : Option (Nat → Char)) (outSize : Nat) : State where
  mangledCur := 0
  outCur := 0
  outEnd := outSize
  outNull := out.isNone
  prevName := none
  prevNameLength := -1
  nestLevel := -1
  append := true
  overflowed := false
  localLevel := 0
  exprLevel := 0
  argLevel := 0

/-- The output buffer before the first call. -/
def initMem (out : Option (Nat → Char)) : Mem where
  out := out.getD fun _ => '\x00'
  trace := []

/-- What the parse of a whole mangled name ends with. -/
def parseTopLevel (mangled : CString) (out : Option (Nat → Char)) (outSize : Nat) : Bool × State × Mem :=
  (parse mangled .topLevelMangledName (initState out outSize) (initMem out)).get (ranked.run_isSome ..)

/-- The demangler entry point: whether it succeeds, and the output buffer after it. -/
def demangle (mangled : CString) (out : Option (Nat → Char)) (outSize : Nat) : Bool × (Nat → Char) :=
  let r := parseTopLevel mangled out outSize
  (r.1 && !r.2.1.overflowed, r.2.2.out)

section
variable {mangled : CString}

/-- The recursive equations of the parse functions. -/
theorem parse_eq (f : Func) (s : State) (m : Mem) :
    parse mangled f s m = body mangled (parse mangled) f s (noteCall f s m) :=
  ranked.run_eq f s m

theorem parse_isSome (mangled : CString) (f : Func) (s : State) (m : Mem) : (parse mangled f s m).isSome :=
  ranked.run_isSome f s m

theorem parseTopLevel_eq_some (out : Option (Nat → Char)) (outSize : Nat) :
    parse mangled .topLevelMangledName (initState out outSize) (initMem out) =
      some (parseTopLevel mangled out outSize) :=
  (Option.some_get _).symm

theorem parse_of_parseTopLevel {out : Option (Nat → Char)} {outSize : Nat} {b : Bool}
    (h : (parseTopLevel mangled out outSize).1 = b) :
    parse mangled .topLevelMangledName (initState out outSize) (initMem out) =
      some (b, (parseTopLevel mangled out outSize).2.1, (parseTopLevel mangled out outSize).2.2) := by
  rw [parseTopLevel_eq_some, ← h]

/-- The demangler makes progress: a parse function answers, with recursion of a depth that is linear in
    the rest of the mangled name; the cursor ends neither before its value on entry nor past the
    terminator; and it has moved when a function succeeds that does not accept the empty string. -/
theorem parse_progress (mangled : CString) (f : Func) (s : State) (m : Mem) :
    ∃ b s' m',
      (∀ depth, width * (mangled.length + 1 - s.mangledCur) + rank f < depth →
        eval noteCall (body mangled) depth f s m = some (b, s', m')) ∧
      s.mangledCur ≤ s'.mangledCur ∧
      (s.mangledCur ≤ mangled.length → s'.mangledCur ≤ mangled.length) ∧
      (b = true → strict f = true → s.mangledCur < s'.mangledCur) := by
  obtain ⟨⟨b, s', m'⟩, h⟩ := Option.isSome_iff_exists.mp (parse_isSome mangled f s m)
  obtain ⟨hle, hlim, hlt⟩ := ranked.run_moves f h
  refine ⟨b, s', m', fun depth hdepth => ?_, hle, fun hs => ?_, fun hb hf => hlt hf hb⟩
  · rw [ranked.eval_eq_run hdepth]
    exact h
  · rcases hlim with heq | hlim
    · rw [heq]
      exact hs
    · exact hlim

end

end Glog.Demangle
