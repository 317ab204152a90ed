import Glog.Demangle.Parse

/-! # What the output functions leave alone

`Append` and the functions around it change the output buffer, `out_cur`, the remembered name and
`overflowed`, and nothing else. -/

namespace Glog.Demangle

/-- From `a` to `b` only the output buffer, its cursor, the remembered name and `overflowed` change, and
    the record of events grows. -/
structure OutputOnly (a b : State × Mem) : Prop where
  mangledCur : b.1.mangledCur = a.1.mangledCur
  outEnd : b.1.outEnd = a.1.outEnd
  outNull : b.1.outNull = a.1.outNull
  nestLevel : b.1.nestLevel = a.1.nestLevel
  append : b.1.append = a.1.append
  localLevel : b.1.localLevel = a.1.localLevel
  exprLevel : b.1.exprLevel = a.1.exprLevel
  argLevel : b.1.argLevel = a.1.argLevel
  trace : a.2.trace <:+ b.2.trace

namespace OutputOnly
variable {a b c : State × Mem}

theorem refl (a : State × Mem) : OutputOnly a a := ⟨rfl, rfl, rfl, rfl, rfl, rfl, rfl, rfl, List.suffix_refl _⟩

theorem trans (h₁ : OutputOnly a b) (h₂ : OutputOnly b c) : OutputOnly a c where
  mangledCur := h₂.mangledCur.trans h₁.mangledCur
  outEnd := h₂.outEnd.trans h₁.outEnd
  outNull := h₂.outNull.trans h₁.outNull
  nestLevel := h₂.nestLevel.trans h₁.nestLevel
  append := h₂.append.trans h₁.append
  localLevel := h₂.localLevel.trans h₁.localLevel
  exprLevel := h₂.exprLevel.trans h₁.exprLevel
  argLevel := h₂.argLevel.trans h₁.argLevel
  trace := h₁.trace.trans h₂.trace

/-- Events alone. -/
theorem of_trace {s : State} {m m' : Mem} (h : m.trace <:+ m'.trace) : OutputOnly (s, m) (s, m') :=
  ⟨rfl, rfl, rfl, rfl, rfl, rfl, rfl, rfl, h⟩

end OutputOnly

theorem note_outputOnly (e : Event) (s : State) (m : Mem) : OutputOnly (s, m) (s, m.note e) :=
  .of_trace ⟨[e], rfl⟩

theorem write_outputOnly (i : Nat) (c : Char) (s : State) (m : Mem) : OutputOnly (s, m) (s, m.write i c) :=
  .of_trace ⟨[.write i c], rfl⟩

theorem read_outputOnly (str : Str) (i : Nat) (s : State) (m : Mem) : OutputOnly (s, m) (s, (m.read str i).2) := by
  unfold Mem.read
  split
  · exact OutputOnly.refl _
  · exact note_outputOnly _ s m
  · exact note_outputOnly _ s m

theorem setOut_outputOnly {s : State} {m : Mem} (outCur : Nat) (prevName : Option Nat) (prevNameLength : Int)
    (overflowed : Bool) : OutputOnly (s, m)
      ({ s with outCur := outCur, prevName := prevName, prevNameLength := prevNameLength, overflowed := overflowed }, m) :=
  ⟨rfl, rfl, rfl, rfl, rfl, rfl, rfl, rfl, List.suffix_refl _⟩

theorem appendLoop_outputOnly (str : Str) :
    ∀ (left i : Nat) (s : State) (m : Mem), OutputOnly (s, m) (appendLoop str left i s m)
  | 0, _, s, m => OutputOnly.refl (s, m)
  | left + 1, i, s, m => by
    unfold appendLoop
    split
    · have hread := read_outputOnly str i s m
      have hwrite := write_outputOnly s.outCur (m.read str i).1 s (m.read str i).2
      have hstep := setOut_outputOnly (s := s) (m := (m.read str i).2.write s.outCur (m.read str i).1) (s.outCur + 1)
        s.prevName s.prevNameLength s.overflowed
      exact ((hread.trans hwrite).trans hstep).trans (appendLoop_outputOnly str left (i + 1) _ _)
    · exact setOut_outputOnly s.outCur s.prevName s.prevNameLength true

theorem append_outputOnly (str : Str) (length : Int) (s : State) (m : Mem) :
    OutputOnly (s, m) (append str length s m) := by
  unfold append
  have hnote := note_outputOnly (.append str length.toNat s.outCur s.overflowed) s m
  refine hnote.trans ?_
  dsimp only
  split
  · exact setOut_outputOnly s.outCur s.prevName s.prevNameLength true
  · have hloop := appendLoop_outputOnly str length.toNat 0 s (m.note (.append str length.toNat s.outCur s.overflowed))
    split
    · exact hloop
    · exact hloop.trans (write_outputOnly ..)

theorem appendSpace_outputOnly (str : Str) (s : State) (m : Mem) : OutputOnly (s, m) (appendSpace str s m) := by
  unfold appendSpace
  refine (read_outputOnly str 0 s m).trans ?_
  dsimp only
  split
  · refine (read_outputOnly (.out (some (s.outCur - 1))) 0 s (m.read str 0).2).trans ?_
    split
    · exact append_outputOnly ..
    · exact OutputOnly.refl _
  · exact OutputOnly.refl _

theorem rememberName_outputOnly (str : Str) (length : Int) (s : State) (m : Mem) :
    OutputOnly (s, m) (rememberName str length s m) := by
  unfold rememberName
  refine (read_outputOnly str 0 s m).trans ?_
  dsimp only
  split
  · exact setOut_outputOnly s.outCur (some s.outCur) length s.overflowed
  · exact OutputOnly.refl _

theorem maybeAppendWithLength_outputOnly (str : Str) (length : Int) (s : State) (m : Mem) :
    OutputOnly (s, m) (maybeAppendWithLength str length s m) := by
  unfold maybeAppendWithLength
  split
  · exact ((appendSpace_outputOnly ..).trans (rememberName_outputOnly ..)).trans (append_outputOnly ..)
  · exact OutputOnly.refl _

theorem maybeAppend_outputOnly (text : List Char) (s : State) (m : Mem) :
    OutputOnly (s, m) (maybeAppend text s m) := by
  unfold maybeAppend
  split
  · exact maybeAppendWithLength_outputOnly ..
  · exact OutputOnly.refl _

theorem maybeAppendSeparator_outputOnly (s : State) (m : Mem) : OutputOnly (s, m) (maybeAppendSeparator s m) := by
  unfold maybeAppendSeparator
  split
  · exact maybeAppend_outputOnly ..
  · exact OutputOnly.refl _

theorem maybeCancelLastSeparator_outputOnly (s : State) (m : Mem) :
    OutputOnly (s, m) (maybeCancelLastSeparator s m) := by
  unfold maybeCancelLastSeparator
  split
  · exact ((note_outputOnly (.cancel s.outCur) s m).trans (write_outputOnly ..)).trans
      (setOut_outputOnly (s.outCur - 2) s.prevName s.prevNameLength s.overflowed)
  · exact OutputOnly.refl _

theorem appendIdentifier_outputOnly (mangled : CString) (length : Int) (s : State) (m : Mem) :
    OutputOnly (s, m) (appendIdentifier mangled length s m) := by
  unfold appendIdentifier
  split
  · exact maybeAppend_outputOnly ..
  · exact maybeAppendWithLength_outputOnly ..

theorem appendOperator_outputOnly (realName : List Char) (s : State) (m : Mem) :
    OutputOnly (s, m) (appendOperator realName s m) := by
  unfold appendOperator
  dsimp only
  split
  · exact ((maybeAppend_outputOnly ..).trans (maybeAppend_outputOnly ..)).trans (maybeAppend_outputOnly ..)
  · exact (maybeAppend_outputOnly ..).trans (maybeAppend_outputOnly ..)

theorem appendSubstitution_outputOnly (realName : List Char) (s : State) (m : Mem) :
    OutputOnly (s, m) (appendSubstitution realName s m) := by
  unfold appendSubstitution
  dsimp only
  split
  · exact maybeAppend_outputOnly ..
  · exact ((maybeAppend_outputOnly ..).trans (maybeAppend_outputOnly ..)).trans (maybeAppend_outputOnly ..)

theorem replayName_outputOnly (s : State) (m : Mem) : OutputOnly (s, m) (replayName s m) :=
  maybeAppendWithLength_outputOnly ..

theorem replayDtorName_outputOnly (s : State) (m : Mem) : OutputOnly (s, m) (replayDtorName s m) :=
  (maybeAppend_outputOnly ..).trans (maybeAppendWithLength_outputOnly ..)

end Glog.Demangle
