import Glog.Demangle.Control

/-! # Where the demangler touches its output buffer

Appending text and cancelling a separator stay within the buffer. Appending the remembered name again, for
a constructor or a destructor, stays within it exactly where as much of the name as there is room for lies in
the buffer: after an overflow the remembered length exceeds what was written. -/

namespace Glog.Demangle
open Backtrack Backtrack.Parser

/-- The index of the output buffer that an event touches. -/
def Event.index : Event → Option Nat
  | .read i | .write i _ => some i
  | _ => none

/-- Every index that is read or written lies in a buffer of size `n`. -/
def InBounds (n : Nat) (trace : List Event) : Prop := ∀ i ∈ trace.filterMap Event.index, i < n

/-- Whether the characters that a call of `Append` takes out of the buffer lie in it; the last place of the
    buffer is kept for the terminator. -/
def Event.fits (n : Nat) : Event → Bool
  | .append (.out (some start)) length outCur _ => start + min length (n - 1 - outCur) ≤ n
  | _ => true

def ReplaysFit (n : Nat) (trace : List Event) : Prop := ∀ e ∈ trace, e.fits n = true

instance (n : Nat) (trace : List Event) : Decidable (InBounds n trace) :=
  inferInstanceAs (Decidable (∀ i ∈ trace.filterMap Event.index, i < n))

/-- Events that touch the buffer within its bounds exactly where the replays among them fit. -/
def Balanced (n : Nat) (trace : List Event) : Prop := InBounds n trace ↔ ReplaysFit n trace

/-- What the output functions keep. -/
structure Fitting (n : Nat) (s : State) : Prop where
  outNull : s.outNull = false
  outEnd : s.outEnd = n
  outCur : s.outCur < n
  prevName : ∀ p, s.prevName = some p → p < n
  prevNameLength : s.prevName = none → s.prevNameLength ≤ 0

/-- From `a` to `b` the state stays fitting, and the new events satisfy `E`. -/
def Keeps (n : Nat) (E : List Event → Prop) (a b : State × Mem) : Prop :=
  Fitting n a.1 → Fitting n b.1 ∧ ∃ es, b.2.trace = es ++ a.2.trace ∧ E es

/-- The events touch the buffer within its bounds, and their replays fit. -/
def Safe (n : Nat) (trace : List Event) : Prop := InBounds n trace ∧ ReplaysFit n trace

section
variable {n : Nat} {es fs : List Event} {E : List Event → Prop} {a b c : State × Mem} {s : State} {m : Mem}

theorem inBounds_append : InBounds n (es ++ fs) ↔ InBounds n es ∧ InBounds n fs := by
  unfold InBounds
  rw [List.filterMap_append, List.forall_mem_append]

theorem replaysFit_append : ReplaysFit n (es ++ fs) ↔ ReplaysFit n es ∧ ReplaysFit n fs := List.forall_mem_append

theorem Safe.append (h₁ : Safe n es) (h₂ : Safe n fs) : Safe n (es ++ fs) :=
  ⟨inBounds_append.mpr ⟨h₁.1, h₂.1⟩, replaysFit_append.mpr ⟨h₁.2, h₂.2⟩⟩

theorem Safe.balanced (h : Safe n es) : Balanced n es := ⟨fun _ => h.2, fun _ => h.1⟩

theorem Balanced.append (h₁ : Balanced n es) (h₂ : Balanced n fs) : Balanced n (es ++ fs) := by
  unfold Balanced at h₁ h₂ ⊢
  rw [inBounds_append, replaysFit_append, h₁, h₂]

theorem safe_nil : Safe n [] := by simp [Safe, InBounds, ReplaysFit]

theorem safe_read {i : Nat} (h : i < n) : Safe n [.read i] := by
  simp [Safe, InBounds, ReplaysFit, Event.index, Event.fits, h]

theorem safe_readNull : Safe n [.readNull] := by
  simp [Safe, InBounds, ReplaysFit, Event.index, Event.fits]

theorem safe_write {i : Nat} {c : Char} (h : i < n) : Safe n [.write i c] := by
  simp [Safe, InBounds, ReplaysFit, Event.index, Event.fits, h]

theorem safe_call {f : Func} : Safe n [.call f s] := by
  simp [Safe, InBounds, ReplaysFit, Event.index, Event.fits]

theorem Keeps.mono {E' : List Event → Prop} (h : Keeps n E a b) (hE : ∀ es, E es → E' es) : Keeps n E' a b :=
  fun ha => by
    obtain ⟨hb, es, hes, he⟩ := h ha
    exact ⟨hb, es, hes, hE es he⟩

theorem Keeps.trans (happ : ∀ {es fs}, E es → E fs → E (es ++ fs)) (h₁ : Keeps n E a b) (h₂ : Keeps n E b c) :
    Keeps n E a c := fun ha => by
  obtain ⟨hb, es, hes, he⟩ := h₁ ha
  obtain ⟨hc, fs, hfs, hf⟩ := h₂ hb
  refine ⟨hc, fs ++ es, ?_, happ hf he⟩
  rw [hfs, hes, List.append_assoc]

theorem keeps_refl : Keeps n (Safe n) a a := fun ha => ⟨ha, [], rfl, safe_nil⟩

/-! ### Reading and writing -/

/-- The place that `str[i]` reads lies in the buffer, if it is in one at all. -/
def Str.Within (n : Nat) : Str → Nat → Prop
  | .out (some start), i => start + i < n
  | _, _ => True

theorem keeps_read {str : Str} {i : Nat} (h : str.Within n i) : Keeps n (Safe n) (s, m) (s, (m.read str i).2) :=
  fun hs => by
    match str with
    | .text chars => exact ⟨hs, [], rfl, safe_nil⟩
    | .out none => exact ⟨hs, [.readNull], rfl, safe_readNull⟩
    | .out (some start) => exact ⟨hs, [.read (start + i)], rfl, safe_read h⟩

theorem read_events (str : Str) (i : Nat) (m : Mem) : ∃ es, (m.read str i).2.trace = es ++ m.trace ∧
    ReplaysFit n es ∧ (InBounds n es ↔ str.Within n i) := by
  match str with
  | .text chars => exact ⟨[], rfl, safe_nil.2, fun _ => trivial, fun _ => safe_nil.1⟩
  | .out none => exact ⟨[.readNull], rfl, safe_readNull.2, fun _ => trivial, fun _ => safe_readNull.1⟩
  | .out (some start) =>
    refine ⟨[.read (start + i)], rfl, ?_, ?_⟩
    · simp [ReplaysFit, Event.fits]
    · simp [InBounds, Event.index, Str.Within]

/-- The loop of `Append` takes as many characters as there is room for. -/
theorem appendLoop_events (str : Str) : ∀ (left i : Nat) (s : State) (m : Mem), Fitting n s →
    Fitting n (appendLoop str left i s m).1 ∧ ∃ es, (appendLoop str left i s m).2.trace = es ++ m.trace ∧
      ReplaysFit n es ∧ (InBounds n es ↔ ∀ k < min left (n - 1 - s.outCur), str.Within n (i + k))
  | 0, _, s, m, hs => ⟨hs, [], rfl, safe_nil.2, by simp [safe_nil.1]⟩
  | left + 1, i, s, m, hs => by
    have hcur := hs.outCur
    have hend := hs.outEnd
    unfold appendLoop
    split
    · rename_i hroom
      obtain ⟨es, hes, hfit, hbound⟩ := read_events (n := n) str i m
      have hnext : Fitting n { s with outCur := s.outCur + 1 } :=
        ⟨hs.outNull, hend, by simp only; omega, hs.prevName, hs.prevNameLength⟩
      obtain ⟨hlast, fs, hfs, hfit', hbound'⟩ := appendLoop_events str left (i + 1) _
        ((m.read str i).2.write s.outCur (m.read str i).1) hnext
      have hwrite : Safe n [.write s.outCur (m.read str i).1] := safe_write hcur
      refine ⟨hlast, fs ++ ([.write s.outCur (m.read str i).1] ++ es), hfs.trans ?_, ?_, ?_⟩
      · simp only [Mem.write, hes, List.append_assoc, List.cons_append, List.nil_append]
      · exact replaysFit_append.mpr ⟨hfit', replaysFit_append.mpr ⟨hwrite.2, hfit⟩⟩
      · rw [inBounds_append, inBounds_append, hbound', hbound]
        constructor
        · rintro ⟨hrest, -, hfirst⟩ k hk
          cases k with
          | zero => exact hfirst
          | succ k =>
            have := hrest k (by simp only; omega)
            rwa [Nat.add_assoc, Nat.add_comm 1 k] at this
        · intro hall
          refine ⟨fun k hk => ?_, hwrite.1, hall 0 (by omega)⟩
          have := hall (k + 1) (by simp only at hk; omega)
          rwa [Nat.add_assoc, Nat.add_comm 1 k]
    · rename_i hroom
      refine ⟨⟨hs.outNull, hs.outEnd, hs.outCur, hs.prevName, hs.prevNameLength⟩, [], rfl, safe_nil.2, ?_⟩
      have hzero : n - 1 - s.outCur = 0 := by omega
      simp [hzero, safe_nil.1]

/-- What a call of `Append` takes out of the buffer, all told. -/
theorem append_events (str : Str) (length : Int) (hs : Fitting n s) : Fitting n (append str length s m).1 ∧
    ∃ es, (append str length s m).2.trace = es ++ [.append str length.toNat s.outCur s.overflowed] ++ m.trace ∧
      ReplaysFit n es ∧ (InBounds n es ↔ ∀ k < min length.toNat (n - 1 - s.outCur), str.Within n k) := by
  obtain ⟨hlast, es, hes, hfit, hbound⟩ :=
    appendLoop_events str length.toNat 0 s (m.note (.append str length.toNat s.outCur s.overflowed)) hs
  simp only [Nat.zero_add] at hbound
  have hes : (appendLoop str length.toNat 0 s (m.note (.append str length.toNat s.outCur s.overflowed))).2.trace =
      es ++ [.append str length.toNat s.outCur s.overflowed] ++ m.trace := by
    rw [hes, Mem.note, List.append_assoc]
    rfl
  unfold append
  simp only [hs.outNull, Bool.false_eq_true, if_false]
  split
  · exact ⟨hlast, es, hes, hfit, hbound⟩
  · have hend : Safe n [.write (appendLoop str length.toNat 0 s
        (m.note (.append str length.toNat s.outCur s.overflowed))).1.outCur '\x00'] :=
      safe_write hlast.outCur
    refine ⟨hlast, _ :: es, ?_, replaysFit_append.mpr ⟨hend.2, hfit⟩, ?_⟩
    · simp only [Mem.write, hes, List.cons_append]
    · rw [← hbound, ← List.singleton_append, inBounds_append]
      exact ⟨fun h => h.2, fun h => ⟨hend.1, h⟩⟩

theorem keeps_append_text (chars : List Char) (length : Int) :
    Keeps n (Safe n) (s, m) (append (.text chars) length s m) := fun hs => by
  obtain ⟨hlast, es, hes, hfit, hbound⟩ := append_events (s := s) (m := m) (.text chars) length hs
  refine ⟨hlast, _, hes, ?_⟩
  refine Safe.append ⟨hbound.mpr fun _ _ => trivial, hfit⟩ ?_
  simp [Safe, InBounds, ReplaysFit, Event.index, Event.fits]

/-- `Append` of a part of the buffer. -/
theorem keeps_append_out {start : Nat} (hstart : start < n) (length : Int) :
    Keeps n (Balanced n) (s, m) (append (.out (some start)) length s m) := fun hs => by
  obtain ⟨hlast, es, hes, hfit, hbound⟩ := append_events (s := s) (m := m) (.out (some start)) length hs
  refine ⟨hlast, _, hes, ?_⟩
  have hindex : InBounds n [.append (.out (some start)) length.toNat s.outCur s.overflowed] := nofun
  have hone : ReplaysFit n [.append (.out (some start)) length.toNat s.outCur s.overflowed] ↔
      start + min length.toNat (n - 1 - s.outCur) ≤ n := by
    simp [ReplaysFit, Event.fits]
  unfold Balanced
  rw [inBounds_append, replaysFit_append, hone, hbound]
  constructor
  · rintro ⟨hall, -⟩
    refine ⟨hfit, Nat.le_of_not_lt fun hlt => ?_⟩
    -- The character just behind the buffer is read.
    have := hall (n - start) (by omega)
    simp only [Str.Within] at this
    omega
  · rintro ⟨-, hle⟩
    refine ⟨fun k hk => ?_, hindex⟩
    simp only [Str.Within]
    omega

/-! ### The output functions -/

/-- The text starts within the buffer, if it is in one at all. -/
theorem keeps_appendSpace {str : Str} (h : str.Within n 0) : Keeps n (Safe n) (s, m) (appendSpace str s m) := by
  have hread : Keeps n (Safe n) (s, m) (s, (m.read str 0).2) := keeps_read h
  unfold appendSpace
  dsimp only
  split
  · refine hread.trans Safe.append fun hs => ?_
    have hlast : (Str.out (some (s.outCur - 1))).Within n 0 := by
      have := hs.outCur
      simp only [Str.Within] at this ⊢
      omega
    revert hs
    change Keeps n (Safe n) (s, (m.read str 0).2) _
    split
    · exact (keeps_read hlast).trans Safe.append (keeps_append_text _ _)
    · exact keeps_read hlast
  · exact hread

theorem keeps_rememberName {str : Str} (h : str.Within n 0) (length : Int) :
    Keeps n (Safe n) (s, m) (rememberName str length s m) := by
  unfold rememberName
  dsimp only
  split
  · refine (keeps_read h).trans Safe.append fun hs => ⟨?_, [], rfl, safe_nil⟩
    exact ⟨hs.outNull, hs.outEnd, hs.outCur, fun p hp => by cases hp; exact hs.outCur, nofun⟩
  · exact keeps_read h

theorem keeps_maybeAppendWithLength {str : Str} {length : Int} (happ : ∀ {es fs}, E es → E fs → E (es ++ fs))
    (hsafe : ∀ es, Safe n es → E es) (hstr : str.Within n 0)
    (hcall : ∀ s m, Keeps n E (s, m) (append str length s m)) :
    Keeps n E (s, m) (maybeAppendWithLength str length s m) := by
  unfold maybeAppendWithLength
  split
  · exact (((keeps_appendSpace hstr).trans Safe.append (keeps_rememberName hstr length)).mono hsafe).trans happ
      (hcall _ _)
  · exact keeps_refl.mono hsafe

theorem keeps_text (chars : List Char) (length : Int) :
    Keeps n (Safe n) (s, m) (maybeAppendWithLength (.text chars) length s m) :=
  keeps_maybeAppendWithLength Safe.append (fun _ h => h) trivial fun _ _ => keeps_append_text _ _

theorem keeps_replayName : Keeps n (Balanced n) (s, m) (replayName s m) := fun hs => by
  unfold replayName
  cases hname : s.prevName with
  | none =>
    have hlength : s.prevNameLength ≤ 0 := hs.prevNameLength hname
    rw [maybeAppendWithLength, if_neg (by omega)]
    exact keeps_refl.mono (fun _ => Safe.balanced) hs
  | some start =>
    have hstart := hs.prevName start hname
    exact keeps_maybeAppendWithLength Balanced.append (fun _ => Safe.balanced) hstart
      (fun _ _ => keeps_append_out hstart _) hs

theorem keeps_maybeCancelLastSeparator : Keeps n (Safe n) (s, m) (maybeCancelLastSeparator s m) := by
  unfold maybeCancelLastSeparator
  split
  · intro hs
    have hcur : s.outCur - 2 < n := Nat.lt_of_le_of_lt (Nat.sub_le ..) hs.outCur
    refine ⟨⟨hs.outNull, hs.outEnd, hcur, hs.prevName, hs.prevNameLength⟩,
      [.write (s.outCur - 2) '\x00'] ++ [.cancel s.outCur], rfl, (safe_write hcur).append ?_⟩
    simp [Safe, InBounds, ReplaysFit, Event.index, Event.fits]
  · exact keeps_refl

/-! ### Runs -/

/-- A parser that keeps the state fitting and whose events are balanced. -/
def KeepsBounds (n : Nat) (p : P) : Prop :=
  ∀ ⦃s m b s' m'⦄, p s m = some (b, s', m') → Keeps n (Balanced n) (s, m) (s', m')

theorem keepsBounds_act {f : State → Mem → State × Mem} (hf : ∀ s m, Keeps n (Balanced n) (s, m) (f s m)) :
    KeepsBounds n (.act f) := fun s m b s' m' h => by
  obtain ⟨-, heq⟩ := act_eq_some h
  exact heq ▸ hf s m

theorem congruent_keepsBounds : Congruent (KeepsBounds n) where
  spent := fun _ _ _ _ _ h => by cases h
  note {f p} hp s m b s' m' h := by
    have hcall : Keeps n (Safe n) (s, m) (s, noteCall f s m) := fun hs => ⟨hs, [.call f s], rfl, safe_call⟩
    exact (hcall.mono fun _ => Safe.balanced).trans Balanced.append (hp h)
  branch {p q r} hp hq hr s m b s' m' h := by
    obtain ⟨v, s₁, m₁, h₁, h₂⟩ := branch_eq_some h
    refine (hp h₁).trans Balanced.append ?_
    cases v
    · exact hr h₂
    · exact hq h₂
  choose hp s _ _ _ _ h := hp s.control h
  retry {p} hp s m b s' m' h := by
    obtain ⟨s₁, h₁, rfl⟩ := retry_eq_some h
    intro hs
    obtain ⟨hs₁, hes⟩ := hp s.control h₁ hs
    refine ⟨?_, hes⟩
    cases b
    · exact hs
    · exact hs₁
  step f s m b s' m' h := by
    cases h
    exact fun hs => ⟨⟨hs.outNull, hs.outEnd, hs.outCur, hs.prevName, hs.prevNameLength⟩, [], rfl, safe_nil.balanced⟩
  text chars _ := keepsBounds_act fun _ _ => (keeps_text chars _).mono fun _ => Safe.balanced
  replay := keepsBounds_act fun _ _ => keeps_replayName
  cancel := keepsBounds_act fun _ _ => keeps_maybeCancelLastSeparator.mono fun _ => Safe.balanced

end

/-- The demangler touches its output buffer within the bounds exactly where every replay of the remembered
    name fits. -/
theorem in_bounds_iff (mangled : CString) (out : Nat → Char) (outSize : Nat) (hsize : 1 ≤ outSize) :
    InBounds outSize (parseTopLevel mangled (some out) outSize).2.2.trace ↔
      ReplaysFit outSize (parseTopLevel mangled (some out) outSize).2.2.trace := by
  have hinit : Fitting outSize (initState (some out) outSize) := ⟨rfl, rfl, hsize, nofun, fun _ => Int.negSucc_le_zero 0⟩
  have hrun := parse_of_parseTopLevel (show (parseTopLevel mangled (some out) outSize).1 = _ from rfl)
  obtain ⟨-, es, hes, hbalanced⟩ := congruent_keepsBounds.parse mangled _ hrun hinit
  change _ = es ++ [] at hes
  rw [List.append_nil] at hes
  rw [hes]
  exact hbalanced

theorem in_bounds_iff_ctor : 1 ≤ 6 ∧
    (InBounds 6 (parseTopLevel ⟨"_ZN1fC1E".toList, by decide⟩ (some fun _ => 'x') 6).2.2.trace ↔
      ReplaysFit 6 (parseTopLevel ⟨"_ZN1fC1E".toList, by decide⟩ (some fun _ => 'x') 6).2.2.trace) :=
  ⟨by decide, in_bounds_iff _ _ 6 (by decide)⟩

/-- The constructor name that follows an overflow: the remembered `bar` stands at the end of the buffer. -/
theorem not_in_bounds : ¬ ∀ (mangled : CString) (out : Nat → Char) (outSize : Nat), 1 ≤ outSize →
    InBounds outSize (parseTopLevel mangled (some out) outSize).2.2.trace := fun h => by
  have hrun := h ⟨"_ZTVMN3foo3barEC1".toList, by decide⟩ (fun _ => 'x') 6 (by decide)
  revert hrun
  decide +kernel

end Glog.Demangle
