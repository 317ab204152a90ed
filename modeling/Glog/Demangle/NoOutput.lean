import Glog.Demangle.Names
import Glog.Demangle.Simulation

/-! # Demangling without an output buffer

Without a buffer, or with one of no bytes, nothing can be appended. `Append` sees to this itself. What else touches the
output does not: the cancelling of a separator, where the address below a null pointer wraps around, and the replay of the
remembered name. -/

namespace Glog.Demangle
open Backtrack Backtrack.Parser

/-- Whether an event is a read or a write through a pointer to the output. -/
def Event.touches : Event → Bool
  | .read _ | .readNull | .write _ _ => true
  | _ => false

def touched (trace : List Event) : Bool := trace.any Event.touches

def Event.isCancel : Event → Bool
  | .cancel _ => true
  | _ => false

/-- Whether a separator is cancelled. -/
def cancels (trace : List Event) : Bool := trace.any Event.isCancel

/-- There is no room at all, and a name that is not remembered has no length. -/
structure Degenerate (s : State) : Prop where
  outCur : s.outCur = 0
  outEnd : s.outEnd = 0
  unset : s.prevName = none → s.prevNameLength ≤ 0

section
variable {n : Nat} {s s' : State} {m m' : Mem} {a b : State × Mem} {str : Str} {length : Int} {chars : List Char}

/-! ### Output functions without room -/

theorem append_degenerate (h : Degenerate s) (hlength : 0 < length) : append str length s m =
    ({ s with overflowed := true }, m.note (.append str length.toNat s.outCur s.overflowed)) := by
  unfold append
  dsimp only
  split
  · rfl
  · obtain ⟨k, hk⟩ : ∃ k, length.toNat = k + 1 := Nat.exists_eq_succ_of_ne_zero (by omega)
    have hnone : ¬ s.outCur + 1 < s.outEnd := by
      rw [h.outEnd]
      exact Nat.not_lt_zero _
    rw [hk, appendLoop, if_neg hnone]
    rfl

theorem appendSpace_degenerate (h : Degenerate s) : appendSpace str s m = (s, (m.read str 0).2) := by
  unfold appendSpace
  refine if_neg fun hc => ?_
  rw [h.outCur] at hc
  exact Nat.lt_irrefl 0 hc.2

theorem Degenerate.rememberName (h : Degenerate s) : Degenerate (rememberName str length s m).1 := by
  rw [rememberName_eq]
  dsimp only
  split
  · exact ⟨h.outCur, h.outEnd, nofun⟩
  · exact h

/-- What appending comes to: an overflow, and the reads of the text's first character. -/
theorem maybeAppendWithLength_degenerate (h : Degenerate s) (hon : s.append = true) (hlength : 0 < length) :
    maybeAppendWithLength str length s m =
      ({ (rememberName str length s (m.read str 0).2).1 with overflowed := true },
        (rememberName str length s (m.read str 0).2).2.note
          (.append str length.toNat 0 (rememberName str length s (m.read str 0).2).1.overflowed)) := by
  have hnamed : Degenerate (rememberName str length s (m.read str 0).2).1 := h.rememberName
  rw [maybeAppendWithLength, if_pos ⟨hon, hlength⟩, appendSpace_degenerate h]
  dsimp only
  rw [append_degenerate hnamed hlength, hnamed.outCur]

theorem replayName_idle (h : s.append = false ∨ s.prevNameLength ≤ 0) (m : Mem) : replayName s m = (s, m) := by
  refine if_neg ?_
  rintro ⟨hon, hlength⟩
  rcases h with h | h
  · cases h.symm.trans hon
  · exact Int.not_lt.mpr h hlength

/-! ### What is touched without room -/

/-- Without room the output is touched by replays and by cancelled separators only, and separators are cancelled only where
    there is no buffer. -/
structure Roomless (null : Bool) (s : State) (m : Mem) : Prop where
  degenerate : Degenerate s
  outNull : s.outNull = null
  touched : touched m.trace = (replays m.trace || cancels m.trace)
  cancels : null = false → cancels m.trace = false

variable {null : Bool}

/-- Events that neither touch the output nor allow it. -/
theorem Roomless.note (h : Roomless null s m) (e : Event) (htouch : e.touches = false) (hreplay : e.isReplay = false)
    (hcancel : e.isCancel = false) : Roomless null s (m.note e) where
  degenerate := h.degenerate
  outNull := h.outNull
  touched := by
    have ht := h.touched
    simp only [Glog.Demangle.touched, replays, Glog.Demangle.cancels] at ht
    simp only [Glog.Demangle.touched, replays, Glog.Demangle.cancels, Mem.note, List.any_cons, htouch, hreplay, hcancel,
      Bool.false_or, ht]
  cancels hn := by
    have hc := h.cancels hn
    simp only [Glog.Demangle.cancels] at hc
    simp only [Glog.Demangle.cancels, Mem.note, List.any_cons, hcancel, Bool.false_or, hc]

theorem Roomless.overflow (h : Roomless null s m) (hnamed : Degenerate (rememberName str length s m).1) :
    Roomless null { (rememberName str length s m).1 with overflowed := true } m where
  degenerate := ⟨hnamed.outCur, hnamed.outEnd, hnamed.unset⟩
  outNull := by
    refine Eq.trans ?_ h.outNull
    exact (rememberName_outputOnly str length s m).outNull
  touched := h.touched
  cancels := h.cancels

theorem Roomless.text (h : Roomless null s m) (chars : List Char) (length : Int) :
    Roomless null (maybeAppendWithLength (.text chars) length s m).1
      (maybeAppendWithLength (.text chars) length s m).2 := by
  by_cases hactive : s.append = true ∧ 0 < length
  · rw [maybeAppendWithLength_degenerate h.degenerate hactive.1 hactive.2]
    have hstate : Roomless null { (rememberName (.text chars) length s m).1 with overflowed := true } m :=
      h.overflow h.degenerate.rememberName
    have hmem : (rememberName (.text chars) length s m).2 = m := by rw [rememberName_eq]; rfl
    have hread : (m.read (.text chars) 0).2 = m := rfl
    rw [hread, hmem]
    exact hstate.note _ rfl rfl rfl
  · rw [maybeAppendWithLength, if_neg hactive]
    exact h

/-- The replay of a remembered name reads it. -/
theorem Roomless.replay (h : Roomless null s m) : Roomless null (replayName s m).1 (replayName s m).2 := by
  by_cases hactive : s.append = true ∧ 0 < s.prevNameLength
  · cases hname : s.prevName with
    | none => exact absurd hactive.2 (Int.not_lt.mpr (h.degenerate.unset hname))
    | some start =>
      unfold replayName
      rw [maybeAppendWithLength_degenerate h.degenerate hactive.1 hactive.2, hname]
      have hnamed : Degenerate (rememberName (.out (some start)) s.prevNameLength s (m.read (.out (some start)) 0).2).1 :=
        h.degenerate.rememberName
      refine ⟨⟨hnamed.outCur, hnamed.outEnd, hnamed.unset⟩, ?_, ?_, fun hn => ?_⟩
      · exact (rememberName_outputOnly ..).outNull.trans h.outNull
      · rw [rememberName_eq]
        simp [Glog.Demangle.touched, replays, Mem.note, Mem.read, Event.touches, Event.isReplay]
      · have hc := h.cancels hn
        rw [rememberName_eq]
        simp only [Glog.Demangle.cancels] at hc
        simp [Glog.Demangle.cancels, Mem.note, Mem.read, Event.isCancel, hc]
  · rw [replayName, maybeAppendWithLength, if_neg hactive]
    exact h

/-- The address below a null pointer is above it, so that the separator is cancelled there. -/
theorem maybeCancelLastSeparator_degenerate (h : Degenerate s) : maybeCancelLastSeparator s m =
    if s.nestLevel ≥ 1 ∧ s.append = true ∧ s.outNull = true then
      ({ s with outCur := s.outCur - 2 }, (m.note (.cancel s.outCur)).write (s.outCur - 2) '\x00')
    else (s, m) := by
  have hcur : ¬ 2 ≤ s.outCur := by
    rw [h.outCur]
    exact Nat.not_succ_le_zero 1
  simp only [maybeCancelLastSeparator, hcur, or_false]

theorem Roomless.cancel (h : Roomless null s m) :
    Roomless null (maybeCancelLastSeparator s m).1 (maybeCancelLastSeparator s m).2 := by
  rw [maybeCancelLastSeparator_degenerate h.degenerate]
  split
  · rename_i hactive
    have hcur : s.outCur - 2 = 0 := by rw [h.degenerate.outCur]
    refine ⟨⟨hcur, h.degenerate.outEnd, h.degenerate.unset⟩, h.outNull, ?_, fun hn => ?_⟩
    · simp [Glog.Demangle.touched, Glog.Demangle.cancels, Mem.note, Mem.write, Event.touches, Event.isCancel]
    · cases hn.symm.trans (h.outNull.symm.trans hactive.2.2)
  · exact h

/-- A parser that touches the output in these ways only. -/
def KeepsOff (null : Bool) (p : P) : Prop :=
  ∀ ⦃s m b s' m'⦄, p s m = some (b, s', m') → Roomless null s m → Roomless null s' m'

theorem keepsOff_act {f : State → Mem → State × Mem} (hf : ∀ s m, Roomless null s m → Roomless null (f s m).1 (f s m).2) :
    KeepsOff null (.act f) := fun s m b s' m' h hs => by
  obtain ⟨-, heq⟩ := act_eq_some h
  have hnext := hf s m hs
  rwa [heq] at hnext

theorem congruent_keepsOff (null : Bool) : Congruent (KeepsOff null) where
  spent := fun _ _ _ _ _ h => by cases h
  note hp _ _ _ _ _ h hs := hp h (hs.note _ rfl rfl rfl)
  branch {p q r} hp hq hr s m b s' m' h hs := by
    obtain ⟨v, s₁, m₁, h₁, h₂⟩ := branch_eq_some h
    have hs₁ := hp h₁ hs
    cases v
    · exact hr h₂ hs₁
    · exact hq h₂ hs₁
  choose hp s _ _ _ _ h := hp s.control h
  retry {p} hp s m b s' m' h hs := by
    obtain ⟨s₁, h₁, rfl⟩ := retry_eq_some h
    have hs₁ := hp s.control h₁ hs
    cases b
    · exact ⟨hs.degenerate, hs.outNull, hs₁.touched, hs₁.cancels⟩
    · exact hs₁
  step f s m b s' m' h hs := by
    cases h
    exact ⟨⟨hs.degenerate.outCur, hs.degenerate.outEnd, hs.degenerate.unset⟩, hs.outNull, hs.touched, hs.cancels⟩
  text chars _ := keepsOff_act fun _ _ hs => hs.text chars _
  replay := keepsOff_act fun _ _ hs => hs.replay
  cancel := keepsOff_act fun _ _ hs => hs.cancel

/-! ### Output functions with and without room -/

/-- Text was appended: it is there, or, without room for a character, the output has overflowed. -/
def State.Advanced (s : State) : Prop := if s.outEnd < 2 then s.overflowed = true else 0 < s.outCur

theorem le_appendLoop_outCur (str : Str) : ∀ (left i : Nat) (s : State) (m : Mem),
    s.outCur ≤ (appendLoop str left i s m).1.outCur
  | 0, _, _, _ => Nat.le_refl _
  | left + 1, i, s, m => by
    unfold appendLoop
    split
    · have hrest := le_appendLoop_outCur str left (i + 1) { s with outCur := s.outCur + 1 }
        ((m.read str i).2.write s.outCur (m.read str i).1)
      exact Nat.le_of_succ_le hrest
    · exact Nat.le_refl _

theorem append_advanced (hnull : s.outNull = false) (hlength : 0 < length) : (append str length s m).1.Advanced := by
  obtain ⟨k, hk⟩ : ∃ k, length.toNat = k + 1 := Nat.exists_eq_succ_of_ne_zero (by omega)
  have hloop : ∀ m, (appendLoop str (k + 1) 0 s m).1.Advanced := fun m => by
    unfold appendLoop State.Advanced
    by_cases hroom : s.outCur + 1 < s.outEnd
    · have hle :=
        le_appendLoop_outCur str k 1 { s with outCur := s.outCur + 1 } ((m.read str 0).2.write s.outCur (m.read str 0).1)
      have hend := (appendLoop_outputOnly str k 1 { s with outCur := s.outCur + 1 }
        ((m.read str 0).2.write s.outCur (m.read str 0).1)).outEnd
      rw [if_pos hroom]
      rw [if_neg (by rw [hend]; dsimp only; omega)]
      exact Nat.lt_of_lt_of_le (Nat.succ_pos _) hle
    · rw [if_neg hroom]
      dsimp only
      split
      · rfl
      · omega
  unfold append
  rw [hk, hnull, if_neg Bool.false_ne_true]
  dsimp only
  split
  · exact hloop _
  · exact hloop _

theorem replays_read (str : Str) (i : Nat) (m : Mem) : replays (m.read str i).2.trace = replays m.trace := by
  match str with
  | .text chars => rfl
  | .out none => rfl
  | .out (some start) => rfl

theorem replays_appendLoop (str : Str) : ∀ (left i : Nat) (s : State) (m : Mem),
    replays (appendLoop str left i s m).2.trace = replays m.trace
  | 0, _, _, _ => rfl
  | left + 1, i, s, m => by
    unfold appendLoop
    split
    · refine (replays_appendLoop str left (i + 1) _ _).trans ?_
      exact replays_read str i m
    · rfl

theorem replays_append_text (chars : List Char) (length : Int) (s : State) (m : Mem) :
    replays (append (.text chars) length s m).2.trace = replays m.trace := by
  unfold append
  dsimp only
  split
  · rfl
  · split
    · exact replays_appendLoop ..
    · exact replays_appendLoop ..

theorem replays_text (chars : List Char) (length : Int) (s : State) (m : Mem) :
    replays (maybeAppendWithLength (.text chars) length s m).2.trace = replays m.trace := by
  have hspace : replays (appendSpace (.text chars) s m).2.trace = replays m.trace := by
    unfold appendSpace
    dsimp only
    split
    · have hlast := replays_read (.out (some (s.outCur - 1))) 0 (m.read (.text chars) 0).2
      split
      · exact (replays_append_text ..).trans hlast
      · exact hlast
    · rfl
  unfold maybeAppendWithLength
  split
  · refine (replays_append_text ..).trans ?_
    rw [rememberName_eq]
    exact hspace
  · rfl

/-! ### Runs with and without room -/

/-- The second run is one with a buffer of size `n`, and the first is the same without. -/
structure Twin (n : Nat) (a b : State × Mem) : Prop where
  degenerate : Degenerate a.1
  outNull : a.1.outNull = true
  control : a.1.control = b.1.control
  prevNameLength : a.1.prevNameLength = b.1.prevNameLength
  buffer : b.1.outNull = false
  outEnd : b.1.outEnd = n
  advanced : a.1.overflowed = true ↔ b.1.Advanced
  replays : replays b.2.trace = false

/-- No name was replayed and no separator was cancelled. -/
def Untouching (trace : List Event) : Prop := replays trace = false ∧ cancels trace = false

theorem Untouching.older {es fs : List Event} (h : es <:+ fs) (hfs : Untouching fs) : Untouching es := by
  obtain ⟨new, rfl⟩ := h
  obtain ⟨hreplays, hcancels⟩ := hfs
  simp only [replays, cancels, List.any_append, Bool.or_eq_false_iff] at hreplays hcancels
  exact ⟨hreplays.2, hcancels.2⟩

theorem Twin.text (h : Twin n a b) (chars : List Char) (length : Int) :
    Twin n (maybeAppendWithLength (.text chars) length a.1 a.2) (maybeAppendWithLength (.text chars) length b.1 b.2) := by
  have happend : a.1.append = b.1.append := congrArg Control.append h.control
  by_cases hactive : a.1.append = true ∧ 0 < length
  · have hactive' : b.1.append = true ∧ 0 < length := ⟨happend ▸ hactive.1, hactive.2⟩
    have hfirst := maybeAppendWithLength_outputOnly (.text chars) length a.1 a.2
    have hsecond := maybeAppendWithLength_outputOnly (.text chars) length b.1 b.2
    have hwithout : maybeAppendWithLength (.text chars) length a.1 a.2 = _ :=
      maybeAppendWithLength_degenerate h.degenerate hactive.1 hactive.2
    have hnamed : Degenerate (rememberName (.text chars) length a.1 (a.2.read (.text chars) 0).2).1 :=
      h.degenerate.rememberName
    refine ⟨?_, ?_, ?_, ?_, ?_, ?_, ?_, ?_⟩
    · rw [hwithout]
      exact ⟨hnamed.outCur, hnamed.outEnd, hnamed.unset⟩
    · rw [hfirst.outNull]
      exact h.outNull
    · rw [hfirst.control, hsecond.control]
      exact h.control
    · rw [text_prevNameLength hactive, text_prevNameLength hactive', h.prevNameLength]
    · rw [hsecond.outNull]
      exact h.buffer
    · rw [hsecond.outEnd]
      exact h.outEnd
    · have hover : (maybeAppendWithLength (.text chars) length a.1 a.2).1.overflowed = true := by rw [hwithout]
      refine iff_of_true hover ?_
      rw [maybeAppendWithLength, if_pos hactive']
      refine append_advanced ?_ hactive.2
      rw [(rememberName_outputOnly ..).outNull, (appendSpace_outputOnly ..).outNull]
      exact h.buffer
    · rw [replays_text]
      exact h.replays
  · have hactive' : ¬ (b.1.append = true ∧ 0 < length) := by rwa [← happend]
    rw [maybeAppendWithLength, maybeAppendWithLength, if_neg hactive, if_neg hactive']
    exact h

/-- A name that is not replayed in the first run is not in the second. -/
theorem Twin.replay (h : Twin n a b) (hgood : Untouching (replayName a.1 a.2).2.trace) :
    Twin n (replayName a.1 a.2) (replayName b.1 b.2) := by
  have happend : a.1.append = b.1.append := congrArg Control.append h.control
  have hidle : a.1.append = false ∨ a.1.prevNameLength ≤ 0 := by
    by_contra hnot
    simp only [not_or, Bool.not_eq_false, Int.not_le] at hnot
    have hreplays := hgood.1
    rw [replayName, maybeAppendWithLength_degenerate h.degenerate hnot.1 hnot.2] at hreplays
    simp [Glog.Demangle.replays, Mem.note, Event.isReplay] at hreplays
  have hidle' : b.1.append = false ∨ b.1.prevNameLength ≤ 0 := by rwa [← happend, ← h.prevNameLength]
  rw [replayName_idle hidle, replayName_idle hidle']
  exact h

theorem Twin.cancel (h : Twin n a b) (hgood : Untouching (maybeCancelLastSeparator a.1 a.2).2.trace) :
    Twin n (maybeCancelLastSeparator a.1 a.2) (maybeCancelLastSeparator b.1 b.2) := by
  have happend : a.1.append = b.1.append := congrArg Control.append h.control
  have hnest : a.1.nestLevel = b.1.nestLevel := congrArg Control.nestLevel h.control
  have hidle : ¬ (a.1.nestLevel ≥ 1 ∧ a.1.append = true) := fun hactive => by
    have hcancels := hgood.2
    rw [maybeCancelLastSeparator, if_pos ⟨hactive.1, hactive.2, Or.inl h.outNull⟩] at hcancels
    simp [cancels, Mem.note, Mem.write, Event.isCancel] at hcancels
  have hfirst : maybeCancelLastSeparator a.1 a.2 = a := if_neg fun hc => hidle ⟨hc.1, hc.2.1⟩
  have hsecond : maybeCancelLastSeparator b.1 b.2 = b := if_neg fun hc => hidle ⟨hnest ▸ hc.1, happend ▸ hc.2.1⟩
  rwa [hfirst, hsecond]

theorem simulation_twin : Simulation Untouching (Twin n) where
  older := Untouching.older
  control h := h.control
  note h _ := { h with replays := h.replays }
  back h h' := { h with replays := h'.replays }
  step h _ := ⟨⟨h.degenerate.outCur, h.degenerate.outEnd, h.degenerate.unset⟩, h.outNull, rfl, h.prevNameLength, h.buffer,
    h.outEnd, h.advanced, h.replays⟩
  text chars _ := fun _ _ _ _ h _ => h.text chars _
  replay _ _ _ _ h hgood := h.replay hgood
  cancel _ _ _ _ h hgood := h.cancel hgood

theorem degenerate_init (out : Option (Nat → Char)) : Degenerate (initState out 0) :=
  ⟨rfl, rfl, fun _ => Int.negSucc_le_zero 0⟩

theorem twin_init (out : Nat → Char) :
    Twin n (initState none 0, initMem none) (initState (some out) n, initMem (some out)) := by
  refine ⟨degenerate_init none, rfl, rfl, rfl, rfl, rfl, ?_, rfl⟩
  unfold State.Advanced
  simp [initState]

/-! ### The demangler -/

/-- Without room the output is left alone, and the demangler fails where the name is not empty. -/
def NoOutputSafe (mangled : CString) : Prop := ∀ out : Option (Nat → Char),
  touched (parseTopLevel mangled out 0).2.2.trace = false ∧
  ∀ text, DemanglesTo mangled text → text ≠ [] → (demangle mangled out 0).1 = false

/-- A name that is not empty is not all left from alternatives that were given up: with a large enough buffer the output
    ends behind its start. -/
def EndsPastStart (mangled : CString) : Prop := ∀ text, DemanglesTo mangled text → text ≠ [] →
  ∃ size, ∀ n ≥ size, ∀ out : Nat → Char, 0 < (parseTopLevel mangled (some out) n).2.1.outCur

variable {mangled : CString}

theorem roomless_parseTopLevel (mangled : CString) (out : Option (Nat → Char)) :
    Roomless out.isNone (parseTopLevel mangled out 0).2.1 (parseTopLevel mangled out 0).2.2 :=
  (congruent_keepsOff _).parse mangled _ (parseTopLevel_eq_some out 0) ⟨degenerate_init out, rfl, rfl, fun _ => rfl⟩

/-- Without a buffer the demangler answers as with one, and it overflows where the other one appends. -/
theorem twin_parseTopLevel (h : Untouching (parseTopLevel mangled none 0).2.2.trace) (out : Nat → Char) (n : Nat) :
    (parseTopLevel mangled (some out) n).1 = (parseTopLevel mangled none 0).1 ∧
    Twin n (parseTopLevel mangled none 0).2 (parseTopLevel mangled (some out) n).2 :=
  simulation_twin.lockstep.parseTopLevel h (twin_init out)

/-- Without room the answer does not depend on whether there is a buffer. -/
theorem demangle_noOutput (h : Untouching (parseTopLevel mangled none 0).2.2.trace) (out : Option (Nat → Char)) :
    (demangle mangled out 0).1 = (demangle mangled none 0).1 := by
  cases out with
  | none => rfl
  | some out =>
    obtain ⟨hverdict, htwin⟩ := twin_parseTopLevel h out 0
    have hover : (parseTopLevel mangled none 0).2.1.overflowed = true ↔
        (parseTopLevel mangled (some out) 0).2.1.overflowed = true := by
      have hadvanced := htwin.advanced
      rwa [State.Advanced, htwin.outEnd, if_pos Nat.two_pos] at hadvanced
    unfold demangle
    dsimp only
    rw [hverdict, Bool.eq_iff_iff.mpr hover]

/-- Without room the output is safe exactly where no separator is cancelled and no name replayed, and a name that is not
    empty is kept in part. -/
theorem noOutputSafe_iff (mangled : CString) : NoOutputSafe mangled ↔
    replays (parseTopLevel mangled none 0).2.2.trace = false ∧ cancels (parseTopLevel mangled none 0).2.2.trace = false ∧
      EndsPastStart mangled := by
  constructor
  · intro h
    have htouched := (h none).1
    rw [(roomless_parseTopLevel mangled none).touched, Bool.or_eq_false_iff] at htouched
    refine ⟨htouched.1, htouched.2, fun text htext hne => ?_⟩
    have hfails := (h none).2 text htext hne
    obtain ⟨size, hsize⟩ := htext
    refine ⟨max size 2, fun n hn out => ?_⟩
    obtain ⟨hverdict, htwin⟩ := twin_parseTopLevel htouched out n
    have hsucceeds := (hsize n (Nat.le_trans (Nat.le_max_left ..) hn) out).1
    -- With the buffer the name is accepted, so that without one only the overflow can be what fails.
    have hover : (parseTopLevel mangled none 0).2.1.overflowed = true := by
      simp only [demangle, hverdict, Bool.and_eq_true] at hsucceeds
      simpa [demangle, hsucceeds.1] using hfails
    have hadvanced := htwin.advanced.mp hover
    rwa [State.Advanced, htwin.outEnd, if_neg (Nat.not_lt.mpr (Nat.le_trans (Nat.le_max_right ..) hn))] at hadvanced
  · rintro ⟨hreplays, hcancels, hadvances⟩ out
    have hgood : Untouching (parseTopLevel mangled none 0).2.2.trace := ⟨hreplays, hcancels⟩
    refine ⟨?_, fun text htext hne => ?_⟩
    · have hroomless := roomless_parseTopLevel mangled out
      rw [hroomless.touched]
      cases out with
      | none => rw [hreplays, hcancels, Bool.or_false]
      | some out => rw [(twin_parseTopLevel hgood out 0).2.replays, hroomless.cancels rfl, Bool.or_false]
    · rw [demangle_noOutput hgood]
      obtain ⟨size, hsize⟩ := hadvances text htext hne
      have hcur := hsize (max size 2) (Nat.le_max_left ..) fun _ => 'x'
      have htwin := (twin_parseTopLevel hgood (fun _ => 'x') (max size 2)).2
      have hover : (parseTopLevel mangled none 0).2.1.overflowed = true := by
        refine htwin.advanced.mpr ?_
        rwa [State.Advanced, htwin.outEnd, if_neg (Nat.not_lt.mpr (Nat.le_max_right ..))]
      simp only [demangle, hover, Bool.not_true, Bool.and_false]

/-- The separator of a nested name is cancelled below the null pointer. -/
theorem not_noOutputSafe : ¬ ∀ mangled : CString, NoOutputSafe mangled := fun h => by
  have hrun := (h ⟨"_ZN1aE".toList, by decide⟩ none).1
  revert hrun
  decide +kernel

end

end Glog.Demangle
