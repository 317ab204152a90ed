import Glog.Demangle.Simulation

/-! # Stale bytes of the output buffer

The output buffer comes with arbitrary contents. Two runs whose buffers differ in such stale bytes only
answer alike, as long as every byte that is read was written before: only an appended copy of the remembered
name, after an overflow, can reach further. -/

namespace Glog.Demangle
open Backtrack Backtrack.Parser

/-- Whether a byte was written. -/
def written (trace : List Event) (i : Nat) : Bool :=
  trace.any fun
    | .write j _ => j == i
    | _ => false

/-- Whether every byte that was read had been written before. -/
def clean : List Event → Bool
  | [] => true
  | e :: older => clean older && match e with
    | .read i => written older i
    | _ => true

/-- Two buffers with the same history that agree on the written bytes. -/
structure Agree (m₁ m₂ : Mem) : Prop where
  trace : m₁.trace = m₂.trace
  out : ∀ i, written m₁.trace i = true → m₁.out i = m₂.out i

/-- On buffers that agree `f` does the same, if it reads no stale byte. -/
def Alike (f : State → Mem → State × Mem) : Prop :=
  ∀ ⦃s m₁ m₂⦄, Agree m₁ m₂ → clean (f s m₁).2.trace = true → (f s m₁).1 = (f s m₂).1 ∧ Agree (f s m₁).2 (f s m₂).2

/-- On buffers that agree `p` answers alike, if it reads no stale byte. -/
def AnswersAlike (p : P) : Prop := ∀ ⦃s m₁ b s' m₁'⦄, p s m₁ = some (b, s', m₁') →
  m₁.trace <:+ m₁'.trace ∧ (clean m₁'.trace = true → ∀ m₂, Agree m₁ m₂ →
    ∃ m₂', p s m₂ = some (b, s', m₂') ∧ Agree m₁' m₂')

section
variable {es older : List Event} {m₁ m₂ : Mem} {str : Str} {i : Nat} {c : Char}

theorem written_cons_write (i j : Nat) (c : Char) : written (.write j c :: older) i = (j == i || written older i) := by
  simp [written]

theorem written_append : written (es ++ older) i = (written es i || written older i) := by
  simp [written]

theorem clean_of_suffix (h : older <:+ es) (hes : clean es = true) : clean older = true := by
  induction es with
  | nil => rwa [List.suffix_nil.mp h]
  | cons e es ih =>
    rcases List.suffix_cons_iff.mp h with rfl | h
    · exact hes
    · simp only [clean, Bool.and_eq_true] at hes
      exact ih h hes.1

/-! ### Reading and writing -/

theorem Agree.note (h : Agree m₁ m₂) (e : Event) (he : ∀ i c, e ≠ .write i c := by nofun) :
    Agree (m₁.note e) (m₂.note e) where
  trace := congrArg (e :: ·) h.trace
  out i hi := by
    refine h.out i ?_
    cases e <;> first | exact hi | exact absurd rfl (he _ _)

theorem Agree.write (h : Agree m₁ m₂) (i : Nat) (c : Char) : Agree (m₁.write i c) (m₂.write i c) where
  trace := congrArg (Event.write i c :: ·) h.trace
  out j hj := by
    simp only [Mem.write, Function.update_apply]
    split
    · rfl
    · rename_i hne
      refine h.out j ?_
      rw [Mem.write, written_cons_write] at hj
      simpa [Ne.symm hne] using hj

theorem Agree.read (h : Agree m₁ m₂) (hclean : clean (m₁.read str i).2.trace = true) :
    (m₁.read str i).1 = (m₂.read str i).1 ∧ Agree (m₁.read str i).2 (m₂.read str i).2 := by
  match str with
  | .text chars => exact ⟨rfl, h⟩
  | .out none => exact ⟨rfl, h.note .readNull⟩
  | .out (some start) =>
    change (clean m₁.trace && written m₁.trace (start + i)) = true at hclean
    rw [Bool.and_eq_true] at hclean
    exact ⟨h.out _ hclean.2, h.note (.read (start + i))⟩

end

/-! ### Rules -/

section
variable {f g : State → Mem → State × Mem}

theorem Alike.comp (hf : Alike f) (hg : Alike g) (hgrow : ∀ s m, OutputOnly (s, m) (g s m)) :
    Alike fun s m => g (f s m).1 (f s m).2 := fun s m₁ m₂ h hclean => by
  obtain ⟨hstate, hmem⟩ := hf h (clean_of_suffix (hgrow ..).trace hclean)
  dsimp only
  rw [← hstate]
  exact hg hmem hclean

theorem alike_id : Alike fun s m => (s, m) := fun _ _ _ h _ => ⟨rfl, h⟩

theorem Alike.ite (c : State → Prop) [DecidablePred c] (hf : Alike f) (hg : Alike g) :
    Alike fun s m => if c s then f s m else g s m := fun s m₁ m₂ h hclean => by
  by_cases hc : c s
  · simp only [hc, if_true] at hclean ⊢
    exact hf h hclean
  · simp only [hc, if_false] at hclean ⊢
    exact hg h hclean

theorem Alike.read {k : Char → State → Mem → State × Mem} (str : State → Str) (i : Nat) (hk : ∀ c, Alike (k c))
    (hgrow : ∀ c s m, OutputOnly (s, m) (k c s m)) :
    Alike fun s m => k (m.read (str s) i).1 s (m.read (str s) i).2 := fun s m₁ m₂ h hclean => by
  obtain ⟨hchar, hmem⟩ := h.read (clean_of_suffix (hgrow ..).trace hclean)
  dsimp only
  rw [← hchar]
  exact hk _ hmem hclean

end

/-! ### The output functions -/

theorem alike_appendLoop (str : Str) : ∀ left i, Alike (appendLoop str left i)
  | 0, _ => alike_id
  | left + 1, i => fun s m₁ m₂ h hclean => by
    unfold appendLoop at hclean ⊢
    by_cases hroom : s.outCur + 1 < s.outEnd
    · simp only [hroom, if_true] at hclean ⊢
      have hgrow := (appendLoop_outputOnly str left (i + 1) { s with outCur := s.outCur + 1 }
        ((m₁.read str i).2.write s.outCur (m₁.read str i).1)).trace
      have hread := h.read (clean_of_suffix (List.suffix_cons ..) (clean_of_suffix hgrow hclean))
      rw [← hread.1]
      exact alike_appendLoop str left (i + 1) (hread.2.write s.outCur (m₁.read str i).1) hclean
    · simp only [hroom, if_false]
      exact ⟨trivial, h⟩

theorem alike_append (str : Str) (length : Int) : Alike (append str length) := fun s m₁ m₂ h hclean => by
  have hnote := h.note (.append str length.toNat s.outCur s.overflowed)
  unfold append at hclean ⊢
  by_cases hnull : s.outNull = true
  · simp only [hnull, if_true]
    exact ⟨trivial, hnote⟩
  · have hwrite : Alike fun s m => (s, m.write s.outCur '\x00') := fun s _ _ h _ => ⟨rfl, h.write s.outCur '\x00'⟩
    have hend := Alike.ite (fun s => s.overflowed = true) alike_id hwrite
    simp only [hnull] at hclean ⊢
    refine (alike_appendLoop str length.toNat 0).comp hend (fun s m => ?_) hnote hclean
    split
    · exact .refl _
    · exact write_outputOnly ..

theorem alike_appendSpace (str : Str) : Alike (appendSpace str) := by
  have hspace : ∀ c : Char, Alike fun s m => if c = '<' then append (.text [' ']) 1 s m else (s, m) :=
    fun c => .ite (fun _ => c = '<') (alike_append _ _) alike_id
  have hgrow : ∀ (c : Char) s m, OutputOnly (s, m) (if c = '<' then append (.text [' ']) 1 s m else (s, m)) :=
    fun c s m => by
      split
      · exact append_outputOnly ..
      · exact .refl _
  refine .read (fun _ => str) 0 (fun c => .ite (fun s => c = '<' ∧ 0 < s.outCur)
    (.read (fun s => .out (some (s.outCur - 1))) 0 hspace hgrow) alike_id) fun c s m => ?_
  split
  · exact (read_outputOnly ..).trans (hgrow ..)
  · exact .refl _

theorem alike_rememberName (str : Str) (length : Int) : Alike (rememberName str length) := by
  have hset : Alike fun s m => ({ s with prevName := some s.outCur, prevNameLength := length }, m) :=
    fun _ _ _ h _ => ⟨rfl, h⟩
  refine .read (fun _ => str) 0 (fun c => .ite (fun _ => (isAlpha c || c == '_') = true) hset alike_id) fun c s m => ?_
  split
  · exact setOut_outputOnly s.outCur (some s.outCur) length s.overflowed
  · exact .refl _

theorem alike_maybeAppendWithLength (str : Str) (length : Int) : Alike (maybeAppendWithLength str length) :=
  .ite (fun s => s.append = true ∧ 0 < length)
    (.comp (.comp (alike_appendSpace str) (alike_rememberName str length) (rememberName_outputOnly str length))
      (alike_append str length) (append_outputOnly str length)) alike_id

theorem alike_replayName : Alike replayName := fun s _ _ h hclean =>
  alike_maybeAppendWithLength (.out s.prevName) s.prevNameLength h hclean

theorem alike_maybeCancelLastSeparator : Alike maybeCancelLastSeparator :=
  .ite (fun s => s.nestLevel ≥ 1 ∧ s.append = true ∧ (s.outNull = true ∨ 2 ≤ s.outCur))
    (fun s _ _ h _ => ⟨rfl, (h.note (.cancel s.outCur)).write (s.outCur - 2) '\x00'⟩) alike_id

/-! ### Runs -/

/-- Two runs that differ in stale bytes. -/
def AlikeSoFar (a b : State × Mem) : Prop := a.1 = b.1 ∧ Agree a.2 b.2

theorem answersAlike_of_mirrors {p : P} (h : Mirrors (clean · = true) AlikeSoFar p) : AnswersAlike p :=
  fun s m₁ b s' m₁' hrun => by
  obtain ⟨hsuffix, hsecond⟩ := h hrun
  refine ⟨hsuffix, fun hclean m₂ hagree => ?_⟩
  obtain ⟨t', m₂', hrun₂, hstate, hagree'⟩ := hsecond hclean s m₂ ⟨rfl, hagree⟩
  dsimp only at hstate
  subst hstate
  exact ⟨m₂', hrun₂, hagree'⟩

theorem Alike.follows {f : State → Mem → State × Mem} (hf : Alike f) : Follows (clean · = true) AlikeSoFar f := by
  rintro s m t u ⟨hstate, hagree⟩ hclean
  dsimp only at hstate
  subst hstate
  exact hf hagree hclean

theorem simulation_alikeSoFar : Simulation (clean · = true) AlikeSoFar where
  older := clean_of_suffix
  control h := congrArg State.control h.1
  note h f := by
    obtain ⟨hstate, hagree⟩ := h
    dsimp only at hstate
    subst hstate
    exact ⟨rfl, hagree.note (.call f _)⟩
  back h h' := ⟨h.1, h'.2⟩
  step h c := ⟨congrArg (State.withControl · c) h.1, h.2⟩
  text chars _ := (alike_maybeAppendWithLength ..).follows
  replay := alike_replayName.follows
  cancel := alike_maybeCancelLastSeparator.follows

/-- Where no stale byte is read, the run of the demangler is the same for all contents of the buffer. -/
theorem parseTopLevel_alike (mangled : CString) (out out' : Nat → Char) (outSize : Nat)
    (h : clean (parseTopLevel mangled (some out) outSize).2.2.trace = true) :
    (parseTopLevel mangled (some out') outSize).1 = (parseTopLevel mangled (some out) outSize).1 ∧
    (parseTopLevel mangled (some out') outSize).2.1 = (parseTopLevel mangled (some out) outSize).2.1 ∧
    Agree (parseTopLevel mangled (some out) outSize).2.2 (parseTopLevel mangled (some out') outSize).2.2 := by
  have hrun := parse_of_parseTopLevel (show (parseTopLevel mangled (some out) outSize).1 = _ from rfl)
  have hrun' := parse_of_parseTopLevel (show (parseTopLevel mangled (some out') outSize).1 = _ from rfl)
  have hinit : Agree (initMem (some out)) (initMem (some out')) := ⟨rfl, nofun⟩
  obtain ⟨m', heq, hagree⟩ := (answersAlike_of_mirrors (simulation_alikeSoFar.lockstep.mirrors mangled _) hrun).2 h _ hinit
  have hsame : initState (some out) outSize = initState (some out') outSize := rfl
  rw [hsame, hrun'] at heq
  simp only [Option.some.injEq, Prod.mk.injEq] at heq
  obtain ⟨hverdict, hstate, hmem⟩ := heq
  exact ⟨hverdict, hstate, hmem ▸ hagree⟩

end Glog.Demangle
