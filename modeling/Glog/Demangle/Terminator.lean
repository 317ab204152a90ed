import Glog.Demangle.Bounds
import Glog.Demangle.Stale

/-! # The terminator of the output

The demangler terminates its output only where text is appended or a separator cancelled, and a text that is
appended later, in an alternative that is given up, may write over the terminator without a new one: where it
overflows. What is left of the terminators can be told from the calls of `Append`. -/

namespace Glog.Demangle
open Backtrack Backtrack.Parser

/-- The place at which an `Append` of text that fits, or a cancelled separator, terminates the output. -/
def Event.terminator (n : Nat) : Event → Option Nat
  | .append _ length outCur overflowed =>
    if overflowed = false ∧ outCur + length < n then some (outCur + length) else none
  | .cancel outCur => some (outCur - 2)
  | _ => none

/-- Whether an `Append` puts a character at place `i`. -/
def Event.covers (n i : Nat) : Event → Bool
  | .append _ length outCur _ => outCur ≤ i && i < outCur + length && i + 1 < n
  | _ => false

/-- Whether the output is terminated at place `i` and no later `Append` covers it. -/
def endsAt (n : Nat) : List Event → Nat → Bool
  | [], _ => false
  | e :: older, i => e.terminator n == some i || !e.covers n i && endsAt n older i

/-- Whether some terminator is left. -/
def terminated (n : Nat) (trace : List Event) : Bool := (List.range n).any (endsAt n trace)

def Event.isReplay : Event → Bool
  | .append (.out _) _ _ _ => true
  | _ => false

/-- Whether the remembered name is appended. -/
def replays (trace : List Event) : Bool := trace.any Event.isReplay

/-- The string before the first NUL of a buffer of size `n`, if there is one. -/
def cString (n : Nat) (out : Nat → Char) : Option (List Char) :=
  ((List.range n).find? fun i => out i == '\x00').map fun i => (List.range i).map out

/-- When the demangler succeeds, its result depends on the mangled name only. -/
def Defined (mangled : CString) (outSize : Nat) : Prop :=
  ∃ text, ∀ out, (demangle mangled (some out) outSize).1 = true →
    cString outSize (demangle mangled (some out) outSize).2 = some text

/-- What is known of a buffer of size `n` with first contents `out`: it is written from the start on, and the
    terminators that are left are those that `endsAt` tells. -/
structure Tracks (n : Nat) (out : Nat → Char) (m : Mem) : Prop where
  closed : ∀ i j, written m.trace i = true → j ≤ i → written m.trace j = true
  bound : ∀ i, written m.trace i = true → i < n
  stale : ∀ i, written m.trace i = false → m.out i = out i
  ended : ∀ i, endsAt n m.trace i = true → written m.trace i = true ∧ m.out i = '\x00'
  left : replays m.trace = false → ∀ i, written m.trace i = true → m.out i = '\x00' → endsAt n m.trace i = true

structure Sound (n : Nat) (out : Nat → Char) (s : State) (m : Mem) : Prop where
  fitting : Fitting n s
  below : ∀ i < s.outCur, written m.trace i = true
  tracks : Tracks n out m

/-- What the loop of `Append` does with room for `k` characters. -/
structure Copied (n k : Nat) (s : State) (m : Mem) (r : State × Mem) : Prop where
  outCur : r.1.outCur = s.outCur + k
  written : ∀ i, written r.2.trace i = (written m.trace i || decide (s.outCur ≤ i ∧ i < s.outCur + k))
  frame : ∀ i, ¬ (s.outCur ≤ i ∧ i < s.outCur + k) → r.2.out i = m.out i
  endsAt : ∀ i, endsAt n r.2.trace i = endsAt n m.trace i
  replays : replays r.2.trace = replays m.trace

section
variable {n : Nat} {out : Nat → Char} {s s' : State} {m m' : Mem} {str : Str}

theorem write_out (m : Mem) (i : Nat) (c : Char) (j : Nat) : (m.write i c).out j = if j = i then c else m.out j :=
  Function.update_apply ..

theorem copied_zero (h : s'.outCur = s.outCur) : Copied n 0 s m (s', m) :=
  ⟨h, fun i => by rw [decide_eq_false (by omega), Bool.or_false], fun _ _ => rfl, fun _ => rfl, rfl⟩

/-- A read leaves no mark but its record. -/
theorem read_same (str : Str) (i : Nat) (m : Mem) : (m.read str i).2.out = m.out ∧
    (∀ j, written (m.read str i).2.trace j = written m.trace j) ∧
    (∀ j, endsAt n (m.read str i).2.trace j = endsAt n m.trace j) ∧
    replays (m.read str i).2.trace = replays m.trace := by
  match str with
  | .text chars => exact ⟨rfl, fun _ => rfl, fun _ => rfl, rfl⟩
  | .out none => exact ⟨rfl, fun _ => rfl, fun _ => rfl, rfl⟩
  | .out (some start) => exact ⟨rfl, fun _ => rfl, fun _ => rfl, rfl⟩

theorem appendLoop_copied (str : Str) : ∀ (left i : Nat) (s : State) (m : Mem), s.outEnd = n → s.outCur < n →
    Copied n (min left (n - 1 - s.outCur)) s m (appendLoop str left i s m)
  | 0, _, s, m, _, _ => by
    rw [Nat.zero_min]
    exact copied_zero rfl
  | left + 1, i, s, m, hend, hcur => by
    unfold appendLoop
    split
    · rename_i hroom
      obtain ⟨hout, hwritten, hends, hreplays⟩ := read_same (n := n) str i m
      have hrest := appendLoop_copied str left (i + 1) { s with outCur := s.outCur + 1 }
        ((m.read str i).2.write s.outCur (m.read str i).1) hend (by simp only; omega)
      have hk : min (left + 1) (n - 1 - s.outCur) = min left (n - 1 - (s.outCur + 1)) + 1 := by omega
      rw [hk]
      refine ⟨?_, fun j => ?_, fun j hj => ?_, fun j => ?_, ?_⟩
      · rw [hrest.outCur]
        simp only
        omega
      · rw [hrest.written, Mem.write, written_cons_write, hwritten]
        rw [Bool.eq_iff_iff]
        cases written m.trace j
        · simp only [Bool.or_false, Bool.or_eq_true, Bool.false_eq_true, false_or, beq_iff_eq, decide_eq_true_eq]
          omega
        · simp
      · rw [hrest.frame j (by simp only; omega), write_out, if_neg (by omega), hout]
      · rw [hrest.endsAt]
        exact hends j
      · rw [hrest.replays]
        exact hreplays
    · have hk : min (left + 1) (n - 1 - s.outCur) = 0 := by omega
      rw [hk]
      exact copied_zero rfl

/-- The characters of a text are copied. -/
theorem appendLoop_text {chars : List Char} (hchars : '\x00' ∉ chars) :
    ∀ (left i : Nat) (s : State) (m : Mem), s.outEnd = n → s.outCur < n → i + left ≤ chars.length →
      ∀ j, s.outCur ≤ j → j < s.outCur + min left (n - 1 - s.outCur) →
        (appendLoop (.text chars) left i s m).2.out j ≠ '\x00'
  | 0, _, _, _, _, _, _ => fun _ _ _ => by omega
  | left + 1, i, s, m, hend, hcur, hlen => fun j hle hlt => by
    unfold appendLoop
    split
    · rename_i hroom
      by_cases hj : j = s.outCur
      · have hrest := appendLoop_copied (n := n) (.text chars) left (i + 1) { s with outCur := s.outCur + 1 }
          ((m.read (.text chars) i).2.write s.outCur (m.read (.text chars) i).1) hend (by simp only; omega)
        rw [hrest.frame j (by simp only; omega), write_out, if_pos hj]
        intro hnul
        have hi : i < chars.length := by omega
        change chars.getD i '\x00' = '\x00' at hnul
        rw [List.getD_eq_getElem?_getD, List.getElem?_eq_getElem hi] at hnul
        exact hchars (hnul ▸ List.getElem_mem hi)
      · exact appendLoop_text hchars left (i + 1) { s with outCur := s.outCur + 1 } _ hend (by simp only; omega) (by omega)
          j (by simp only; omega) (by simp only; omega)
    · omega

theorem appendLoop_overflowed (str : Str) : ∀ (left i : Nat) (s : State) (m : Mem), s.outEnd = n → s.outCur < n →
    (appendLoop str left i s m).1.overflowed = (s.overflowed || decide (n ≤ s.outCur + left))
  | 0, _, s, _, _, hcur => by
    rw [decide_eq_false (by omega), Bool.or_false]
    rfl
  | left + 1, i, s, m, hend, hcur => by
    unfold appendLoop
    split
    · rename_i hroom
      have hrest := appendLoop_overflowed str left (i + 1) { s with outCur := s.outCur + 1 }
        ((m.read str i).2.write s.outCur (m.read str i).1) hend (by simp only; omega)
      rw [show s.outCur + (left + 1) = s.outCur + 1 + left by omega]
      exact hrest
    · rw [decide_eq_true (by omega), Bool.or_true]

/-! ### What the output functions keep -/

theorem Tracks.of_read (h : Tracks n out m) (str : Str) (i : Nat) : Tracks n out (m.read str i).2 := by
  obtain ⟨hout, hwritten, hends, hreplays⟩ := read_same (n := n) str i m
  refine ⟨fun i j => ?_, fun i => ?_, fun i => ?_, fun i => ?_, fun hr i => ?_⟩
  · rw [hwritten, hwritten]
    exact h.closed i j
  · rw [hwritten]
    exact h.bound i
  · rw [hwritten, hout]
    exact h.stale i
  · rw [hwritten, hends, hout]
    exact h.ended i
  · rw [hwritten, hends, hout]
    exact h.left (hreplays ▸ hr) i

theorem covers_append (str : Str) (length outCur i : Nat) (overflowed : Bool) (h : outCur < n) :
    (Event.append str length outCur overflowed).covers n i =
      decide (outCur ≤ i ∧ i < outCur + min length (n - 1 - outCur)) := by
  rw [Bool.eq_iff_iff]
  simp only [Event.covers, Bool.and_eq_true, decide_eq_true_eq]
  omega

/-- `k` characters are added to a buffer at `c`, and a terminator behind them if `e` holds. -/
structure Extends (n c k : Nat) (e : Bool) (m m' : Mem) : Prop where
  written : ∀ i, written m'.trace i = (written m.trace i || decide (c ≤ i ∧ i < c + k) || (e && i == c + k))
  frame : ∀ i, ¬ (c ≤ i ∧ i < c + k) → m'.out i = if e = true ∧ i = c + k then '\x00' else m.out i
  endsAt : ∀ i, endsAt n m'.trace i = ((e && i == c + k) || (!decide (c ≤ i ∧ i < c + k) && endsAt n m.trace i))
  text : replays m'.trace = false → ∀ i, c ≤ i → i < c + k → m'.out i ≠ '\x00'
  replays : replays m.trace = true → replays m'.trace = true

theorem Extends.written_iff {c k : Nat} {e : Bool} (h : Extends n c k e m m') {i : Nat} :
    Demangle.written m'.trace i = true ↔
    Demangle.written m.trace i = true ∨ (c ≤ i ∧ i < c + k) ∨ (e = true ∧ i = c + k) := by
  rw [h.written]
  simp [or_assoc]

theorem Tracks.extend {c k : Nat} {e : Bool} (h : Tracks n out m) (hbelow : ∀ i < c, written m.trace i = true)
    (hroom : c + k < n) (hext : Extends n c k e m m') : Tracks n out m' := by
  refine ⟨fun i j hi hle => ?_, fun i hi => ?_, fun i hi => ?_, fun i hi => ?_, fun hr i hi hnul => ?_⟩
  · by_cases hj : j < c
    · exact hext.written_iff.mpr (Or.inl (hbelow j hj))
    · rcases hext.written_iff.mp hi with hi | hi | ⟨he, rfl⟩
      · exact hext.written_iff.mpr (Or.inl (h.closed i j hi hle))
      · exact hext.written_iff.mpr (Or.inr (Or.inl (by omega)))
      · by_cases hlast : j = c + k
        · exact hext.written_iff.mpr (Or.inr (Or.inr ⟨he, hlast⟩))
        · exact hext.written_iff.mpr (Or.inr (Or.inl (by omega)))
  · rcases hext.written_iff.mp hi with hi | hi | ⟨he, rfl⟩
    · exact h.bound i hi
    · omega
    · exact hroom
  · have hnot : ¬ (written m.trace i = true ∨ (c ≤ i ∧ i < c + k) ∨ (e = true ∧ i = c + k)) := fun hc => by
      rw [hext.written_iff.mpr hc] at hi
      cases hi
    rw [hext.frame i fun hc => hnot (Or.inr (Or.inl hc)), if_neg fun hc => hnot (Or.inr (Or.inr hc))]
    exact h.stale i (by simpa using fun hc => hnot (Or.inl hc))
  · rw [hext.endsAt] at hi
    simp only [Bool.or_eq_true, Bool.and_eq_true, beq_iff_eq, Bool.not_eq_true', decide_eq_false_iff_not] at hi
    rcases hi with ⟨he, rfl⟩ | ⟨hout, hi⟩
    · refine ⟨hext.written_iff.mpr (Or.inr (Or.inr ⟨he, rfl⟩)), ?_⟩
      rw [hext.frame _ (by omega), if_pos ⟨he, rfl⟩]
    · obtain ⟨hw, hnul⟩ := h.ended i hi
      refine ⟨hext.written_iff.mpr (Or.inl hw), ?_⟩
      rw [hext.frame i hout]
      split
      · rfl
      · exact hnul
  · rw [hext.endsAt]
    simp only [Bool.or_eq_true, Bool.and_eq_true, beq_iff_eq, Bool.not_eq_true', decide_eq_false_iff_not]
    by_cases hrange : c ≤ i ∧ i < c + k
    · exact absurd hnul (hext.text hr i hrange.1 hrange.2)
    · by_cases hlast : e = true ∧ i = c + k
      · exact Or.inl hlast
      · rw [hext.frame i hrange, if_neg hlast] at hnul
        have hw : written m.trace i = true := by
          rcases hext.written_iff.mp hi with hi | hi | hi
          · exact hi
          · exact absurd hi hrange
          · exact absurd hi hlast
        have hr' : replays m.trace = false := by
          cases hm : replays m.trace
          · rfl
          · rw [hext.replays hm] at hr
            cases hr
        exact Or.inr ⟨hrange, h.left hr' i hw hnul⟩

theorem append_eq (h : Fitting n s) (str : Str) (length : Int) : append str length s m =
    let r := appendLoop str length.toNat 0 s (m.note (.append str length.toNat s.outCur s.overflowed))
    if r.1.overflowed then r else (r.1, r.2.write r.1.outCur '\x00') := by
  unfold append
  simp only [h.outNull, Bool.false_eq_true, if_false]

/-- What the loop has left, when the call has made its note. -/
structure Looped (n k : Nat) (length : Int) (str : Str) (s : State) (m : Mem) (r : State × Mem) : Prop where
  copied : Copied n k s (m.note (.append str length.toNat s.outCur s.overflowed)) r
  overflowed : r.1.overflowed = (s.overflowed || decide (n ≤ s.outCur + length.toNat))
  text : replays r.2.trace = false → ∀ i, s.outCur ≤ i → i < s.outCur + k → r.2.out i ≠ '\x00'

theorem looped_appendLoop (h : Fitting n s) (str : Str) (length : Int)
    (htext : ∀ chars, str = .text chars → '\x00' ∉ chars ∧ length.toNat ≤ chars.length) :
    Looped n (min length.toNat (n - 1 - s.outCur)) length str s m
      (appendLoop str length.toNat 0 s (m.note (.append str length.toNat s.outCur s.overflowed))) := by
  have hcopied :=
    appendLoop_copied str length.toNat 0 s (m.note (.append str length.toNat s.outCur s.overflowed)) h.outEnd h.outCur
  refine ⟨hcopied, appendLoop_overflowed str length.toNat 0 s _ h.outEnd h.outCur, fun hr => ?_⟩
  rw [hcopied.replays] at hr
  cases str with
  | text chars =>
    obtain ⟨hnul, hlen⟩ := htext chars rfl
    exact appendLoop_text hnul length.toNat 0 s _ h.outEnd h.outCur (by omega)
  | out start =>
    -- a replay is noted
    simp [Mem.note, replays, Event.isReplay] at hr

section
variable {k : Nat} {length : Int} {r : State × Mem}

theorem Looped.replays (h : Looped n k length str s m r) (hm : Demangle.replays m.trace = true) :
    Demangle.replays r.2.trace = true := by
  have hnote : Demangle.replays (m.note (.append str length.toNat s.outCur s.overflowed)).trace =
      ((Event.append str length.toNat s.outCur s.overflowed).isReplay || Demangle.replays m.trace) := by
    simp [Demangle.replays, Mem.note]
  rw [h.copied.replays, hnote, hm, Bool.or_true]

/-- The mark that the call itself leaves. -/
theorem Looped.endsAt (h : Looped n k length str s m r) (hk : k = min length.toNat (n - 1 - s.outCur))
    (hcur : s.outCur < n) (i : Nat) :
    Demangle.endsAt n r.2.trace i = ((Event.append str length.toNat s.outCur s.overflowed).terminator n == some i ||
      !decide (s.outCur ≤ i ∧ i < s.outCur + k) && Demangle.endsAt n m.trace i) := by
  rw [h.copied.endsAt, hk, ← covers_append str length.toNat s.outCur i s.overflowed hcur]
  rfl

/-- With an overflow there is no terminator. -/
theorem Looped.extends_overflowed (h : Looped n k length str s m r) (hk : k = min length.toNat (n - 1 - s.outCur))
    (hcur : s.outCur < n) (ho : r.1.overflowed = true) : Extends n s.outCur k false m r.2 := by
  have hover := h.overflowed
  have hterm : (Event.append str length.toNat s.outCur s.overflowed).terminator n = none := by
    refine if_neg fun hc => ?_
    rw [ho, hc.1, decide_eq_false (by omega)] at hover
    cases hover
  refine ⟨fun i => ?_, fun i hi => ?_, fun i => ?_, h.text, h.replays⟩
  · rw [h.copied.written, Bool.false_and, Bool.or_false]
    rfl
  · rw [h.copied.frame i hi, if_neg fun hc => Bool.false_ne_true hc.1]
    rfl
  · rw [h.endsAt hk hcur, hterm]
    rfl

/-- Otherwise the terminator is written behind the characters. -/
theorem Looped.extends_terminated (h : Looped n k length str s m r) (hk : k = min length.toNat (n - 1 - s.outCur))
    (hcur : s.outCur < n)
    (ho : r.1.overflowed = false) : Extends n s.outCur k true m (r.2.write r.1.outCur '\x00') := by
  have hover := h.overflowed
  rw [ho, Bool.false_eq, Bool.or_eq_false_iff, decide_eq_false_iff_not] at hover
  have hlen : length.toNat = k := by omega
  have hterm : (Event.append str length.toNat s.outCur s.overflowed).terminator n = some (s.outCur + k) := by
    rw [hlen]
    exact if_pos ⟨hover.1, by omega⟩
  refine ⟨fun i => ?_, fun i hi => ?_, fun i => ?_, fun hr i hle hlt => ?_, h.replays⟩
  · rw [Mem.write, written_cons_write, h.copied.outCur, Bool.or_comm, Bool.beq_comm, h.copied.written, Bool.true_and]
    rfl
  · rw [write_out, h.copied.outCur, h.copied.frame i hi]
    simp [Mem.note]
  · have hsame : Demangle.endsAt n (r.2.write r.1.outCur '\x00').trace i = Demangle.endsAt n r.2.trace i := rfl
    rw [hsame, h.endsAt hk hcur, hterm, Bool.true_and, Option.some_beq_some, Bool.beq_comm]
  · rw [write_out, h.copied.outCur, if_neg (by omega)]
    exact h.text hr i hle hlt

end

/-- A call of `Append`: characters and, without an overflow, the terminator behind them. -/
theorem Sound.append (h : Sound n out s m) (str : Str) (length : Int)
    (htext : ∀ chars, str = .text chars → '\x00' ∉ chars ∧ length.toNat ≤ chars.length) :
    Sound n out (append str length s m).1 (append str length s m).2 := by
  have hcur := h.fitting.outCur
  obtain ⟨hfit, -⟩ := append_events (m := m) str length h.fitting
  have hlooped := @looped_appendLoop n s m h.fitting str length htext
  rw [append_eq h.fitting] at hfit ⊢
  generalize appendLoop str length.toNat 0 s (m.note (.append str length.toNat s.outCur s.overflowed)) = r at hfit hlooped ⊢
  have hcount := hlooped.copied.outCur
  -- either way the buffer is extended up to where the loop has got
  suffices hsuffices : ∀ e m', Extends n s.outCur (min length.toNat (n - 1 - s.outCur)) e m m' →
      Fitting n r.1 → Sound n out r.1 m' by
    dsimp only at hfit ⊢
    cases ho : r.1.overflowed with
    | true =>
      simp only [ho, if_true] at hfit ⊢
      exact hsuffices false _ (hlooped.extends_overflowed rfl hcur ho) hfit
    | false =>
      simp only [ho, Bool.false_eq_true, if_false] at hfit ⊢
      exact hsuffices true _ (hlooped.extends_terminated rfl hcur ho) hfit
  intro e m' hext hfit
  refine ⟨hfit, fun i hi => hext.written_iff.mpr ?_, h.tracks.extend h.below (by omega) hext⟩
  by_cases hlt : i < s.outCur
  · exact Or.inl (h.below i hlt)
  · exact Or.inr (Or.inl (by omega))

theorem Sound.of_read (h : Sound n out s m) (str : Str) (i : Nat) : Sound n out s (m.read str i).2 := by
  refine ⟨h.fitting, fun j hj => ?_, h.tracks.of_read str i⟩
  rw [(read_same (n := n) str i m).2.1]
  exact h.below j hj

theorem Sound.appendSpace (h : Sound n out s m) (str : Str) :
    Sound n out (appendSpace str s m).1 (appendSpace str s m).2 := by
  have hread := h.of_read str 0
  unfold Demangle.appendSpace
  dsimp only
  split
  · have hlast := hread.of_read (.out (some (s.outCur - 1))) 0
    split
    · exact hlast.append (.text [' ']) 1 fun chars hchars => by
        cases hchars
        exact ⟨by decide, by decide⟩
    · exact hlast
  · exact hread

theorem Sound.rememberName (h : Sound n out s m) (str : Str) (length : Int) :
    Sound n out (rememberName str length s m).1 (rememberName str length s m).2 := by
  obtain ⟨hfit, hbelow, htracks⟩ := h.of_read str 0
  unfold Demangle.rememberName
  dsimp only
  split
  · refine ⟨⟨hfit.outNull, hfit.outEnd, hfit.outCur, fun p hp => ?_, nofun⟩, hbelow, htracks⟩
    cases hp
    exact hfit.outCur
  · exact ⟨hfit, hbelow, htracks⟩

theorem Sound.maybeAppendWithLength (h : Sound n out s m) (str : Str) (length : Int)
    (htext : ∀ chars, str = .text chars → '\x00' ∉ chars ∧ length.toNat ≤ chars.length) :
    Sound n out (maybeAppendWithLength str length s m).1 (maybeAppendWithLength str length s m).2 := by
  unfold Demangle.maybeAppendWithLength
  split
  · exact ((h.appendSpace str).rememberName str length).append str length htext
  · exact h

theorem Sound.maybeCancelLastSeparator (h : Sound n out s m) :
    Sound n out (maybeCancelLastSeparator s m).1 (maybeCancelLastSeparator s m).2 := by
  unfold Demangle.maybeCancelLastSeparator
  split
  · rename_i hc
    obtain ⟨hfit, hbelow, htracks⟩ := h
    have htwo : 2 ≤ s.outCur := by
      rcases hc.2.2 with hnull | htwo
      · rw [hfit.outNull] at hnull
        cases hnull
      · exact htwo
    have hcur := hfit.outCur
    have hplace : written m.trace (s.outCur - 2) = true := hbelow _ (by omega)
    have hwritten : ∀ i, written ((m.note (.cancel s.outCur)).write (s.outCur - 2) '\x00').trace i = written m.trace i :=
      fun i => by
        rw [Mem.write, written_cons_write]
        change (s.outCur - 2 == i || written m.trace i) = written m.trace i
        by_cases hi : s.outCur - 2 = i
        · rw [← hi, hplace, Bool.or_true]
        · rw [beq_false_of_ne hi, Bool.false_or]
    have hends : ∀ i, endsAt n ((m.note (.cancel s.outCur)).write (s.outCur - 2) '\x00').trace i =
        (s.outCur - 2 == i || endsAt n m.trace i) := fun _ => rfl
    refine ⟨⟨hfit.outNull, hfit.outEnd, by simp only; omega, hfit.prevName, hfit.prevNameLength⟩, fun i hi => ?_, ?_⟩
    · rw [hwritten]
      exact hbelow i (by simp only at hi; omega)
    · refine ⟨fun i j => ?_, fun i => ?_, fun i hi => ?_, fun i hi => ?_, fun hr i hi hnul => ?_⟩
      · rw [hwritten, hwritten]
        exact htracks.closed i j
      · rw [hwritten]
        exact htracks.bound i
      · rw [hwritten] at hi
        rw [write_out, if_neg fun heq => by rw [heq, hplace] at hi; cases hi]
        exact htracks.stale i hi
      · rw [hends, Bool.or_eq_true, beq_iff_eq] at hi
        rw [hwritten, write_out]
        by_cases heq : i = s.outCur - 2
        · exact ⟨heq ▸ hplace, if_pos heq⟩
        · rw [if_neg heq]
          exact htracks.ended i (hi.resolve_left (Ne.symm heq))
      · rw [hwritten] at hi
        rw [write_out] at hnul
        rw [hends, Bool.or_eq_true, beq_iff_eq]
        by_cases heq : i = s.outCur - 2
        · exact Or.inl heq.symm
        · rw [if_neg heq] at hnul
          exact Or.inr (htracks.left hr i hi hnul)
  · exact h

/-! ### Clean runs -/

theorem clean_appendLoop_text (chars : List Char) : ∀ (left i : Nat) (s : State) (m : Mem),
    clean (appendLoop (.text chars) left i s m).2.trace = clean m.trace
  | 0, _, _, _ => rfl
  | left + 1, i, s, m => by
    unfold appendLoop
    split
    · rw [clean_appendLoop_text chars left (i + 1)]
      exact Bool.and_true _
    · rfl

theorem clean_append_text (chars : List Char) (length : Int) (s : State) (m : Mem) :
    clean (append (.text chars) length s m).2.trace = clean m.trace := by
  have hnote : clean (m.note (.append (.text chars) length.toNat s.outCur s.overflowed)).trace = clean m.trace :=
    Bool.and_true _
  unfold append
  dsimp only
  split
  · exact hnote
  · split
    · exact (clean_appendLoop_text ..).trans hnote
    · exact (Bool.and_true _).trans ((clean_appendLoop_text ..).trans hnote)

/-- Text that is appended reads at most the last byte of the output. -/
theorem clean_text (h : Sound n out s m) (hm : clean m.trace = true) (chars : List Char) (length : Int) :
    clean (maybeAppendWithLength (.text chars) length s m).2.trace = true := by
  have hspace : clean (appendSpace (.text chars) s m).2.trace = true := by
    unfold appendSpace
    dsimp only
    split
    · rename_i hc
      have hlast : clean (m.read (.out (some (s.outCur - 1))) 0).2.trace = true := by
        change (clean m.trace && written m.trace (s.outCur - 1)) = true
        rw [hm, h.below _ (by have := hc.2; omega)]
        rfl
      split
      · exact (clean_append_text ..).trans hlast
      · exact hlast
    · exact hm
  have hname : clean (rememberName (.text chars) length (appendSpace (.text chars) s m).1
      (appendSpace (.text chars) s m).2).2.trace = true := by
    unfold rememberName
    dsimp only
    split
    · exact hspace
    · exact hspace
  unfold maybeAppendWithLength
  split
  · exact (clean_append_text ..).trans hname
  · exact hm

/-! ### Runs -/

theorem written_of_suffix {older newer : List Event} {i : Nat} (h : older <:+ newer) (hi : written older i = true) :
    written newer i = true := by
  obtain ⟨es, rfl⟩ := h
  rw [written_append, hi, Bool.or_true]

theorem replays_of_suffix {older newer : List Event} (h : older <:+ newer) (hr : replays newer = false) :
    replays older = false := by
  obtain ⟨es, rfl⟩ := h
  simp only [replays, List.any_append, Bool.or_eq_false_iff] at hr
  exact hr.2

/-- A parser that keeps track of the terminators, and reads no stale byte unless it appends the remembered
    name. -/
def KeepsTrack (n : Nat) (out : Nat → Char) (p : P) : Prop := ∀ ⦃s m b s' m'⦄, p s m = some (b, s', m') →
  m.trace <:+ m'.trace ∧ (Sound n out s m → Sound n out s' m' ∧
    (replays m'.trace = false → clean m.trace = true → clean m'.trace = true))

theorem keepsTrack_act {f : State → Mem → State × Mem} (hgrow : ∀ s m, OutputOnly (s, m) (f s m))
    (hf : ∀ s m, Sound n out s m → Sound n out (f s m).1 (f s m).2 ∧
      (replays (f s m).2.trace = false → clean m.trace = true → clean (f s m).2.trace = true)) :
    KeepsTrack n out (.act f) := fun s m b s' m' h => by
  obtain ⟨-, heq⟩ := act_eq_some h
  have hsuffix := (hgrow s m).trace
  have hsound := hf s m
  rw [heq] at hsuffix hsound
  exact ⟨hsuffix, hsound⟩

theorem replayName_eq (h : Sound n out s m) (hr : replays (replayName s m).2.trace = false) :
    replayName s m = (s, m) := by
  unfold replayName maybeAppendWithLength at hr ⊢
  split at hr
  · have hnamed := (h.appendSpace (.out s.prevName)).rememberName (.out s.prevName) s.prevNameLength
    obtain ⟨-, es, hes, -⟩ := append_events
      (m := (rememberName (.out s.prevName) s.prevNameLength (appendSpace (.out s.prevName) s m).1
        (appendSpace (.out s.prevName) s m).2).2) (.out s.prevName) s.prevNameLength hnamed.fitting
    rw [hes] at hr
    simp [replays, Event.isReplay] at hr
  · rename_i hc
    rw [if_neg hc]

theorem congruent_keepsTrack : Congruent (KeepsTrack n out) where
  spent := fun _ _ _ _ _ h => by cases h
  note {f p} hp s m b s' m' h := by
    obtain ⟨hsuffix, hsound⟩ := hp h
    refine ⟨(List.suffix_cons ..).trans hsuffix, fun hs => ?_⟩
    have htracks := hs.tracks
    obtain ⟨hs', hclean⟩ :=
      hsound ⟨hs.fitting, hs.below, ⟨htracks.closed, htracks.bound, htracks.stale, htracks.ended, htracks.left⟩⟩
    exact ⟨hs', fun hr hm => hclean hr ((Bool.and_true _).trans hm)⟩
  branch {p q r} hp hq hr s m b s' m' h := by
    obtain ⟨v, s₁, m₁, h₁, h₂⟩ := branch_eq_some h
    obtain ⟨hsuffix₁, hsound₁⟩ := hp h₁
    have hrest : m₁.trace <:+ m'.trace ∧ (Sound n out s₁ m₁ → Sound n out s' m' ∧
        (replays m'.trace = false → clean m₁.trace = true → clean m'.trace = true)) := by
      cases v
      · exact hr h₂
      · exact hq h₂
    refine ⟨hsuffix₁.trans hrest.1, fun hs => ?_⟩
    obtain ⟨hs₁, hclean₁⟩ := hsound₁ hs
    obtain ⟨hs', hclean⟩ := hrest.2 hs₁
    exact ⟨hs', fun hr hm => hclean hr (hclean₁ (replays_of_suffix hrest.1 hr) hm)⟩
  choose hp s _ _ _ _ h := hp s.control h
  retry {p} hp s m b s' m' h := by
    obtain ⟨s₁, h₁, rfl⟩ := retry_eq_some h
    obtain ⟨hsuffix, hsound⟩ := hp s.control h₁
    refine ⟨hsuffix, fun hs => ?_⟩
    obtain ⟨hs₁, hclean⟩ := hsound hs
    refine ⟨?_, hclean⟩
    cases b
    · exact ⟨hs.fitting, fun i hi => written_of_suffix hsuffix (hs.below i hi), hs₁.tracks⟩
    · exact hs₁
  step f s m b s' m' h := by
    cases h
    refine ⟨List.suffix_refl _, fun hs => ⟨⟨?_, hs.below, hs.tracks⟩, fun _ hm => hm⟩⟩
    exact ⟨hs.fitting.outNull, hs.fitting.outEnd, hs.fitting.outCur, hs.fitting.prevName, hs.fitting.prevNameLength⟩
  text chars hnul := keepsTrack_act (maybeAppendWithLength_outputOnly _ _) fun s m hs =>
    ⟨hs.maybeAppendWithLength (.text chars) chars.length fun _ h => by cases h; exact ⟨hnul, Nat.le_refl _⟩,
      fun _ hm => clean_text hs hm chars _⟩
  replay := keepsTrack_act replayName_outputOnly fun s m hs =>
    ⟨hs.maybeAppendWithLength (.out s.prevName) s.prevNameLength nofun, fun hr hm => by rwa [replayName_eq hs hr]⟩
  cancel := keepsTrack_act maybeCancelLastSeparator_outputOnly fun s m hs =>
    ⟨hs.maybeCancelLastSeparator, fun _ hm => by
      unfold maybeCancelLastSeparator
      split
      · simpa [Mem.write, Mem.note, clean] using hm
      · exact hm⟩

/-! ### The result -/

/-- The string before the first NUL is a matter of the bytes up to any NUL. -/
theorem cString_of_nul {f : Nat → Char} {i : Nat} (hi : i < n) (hf : f i = '\x00') :
    ∃ text, ∀ g : Nat → Char, (∀ j ≤ i, f j = g j) → cString n g = some text := by
  cases hfind : (List.range n).find? fun i => f i == '\x00' with
  | none =>
    have hnone := List.find?_eq_none.mp hfind i (List.mem_range.mpr hi)
    simp [hf] at hnone
  | some k =>
    obtain ⟨hk, hmem, hbefore⟩ := List.find?_range_eq_some.mp hfind
    have hle : k ≤ i := Nat.le_of_not_lt fun hlt => by
      have := hbefore i hlt
      simp [hf] at this
    refine ⟨(List.range k).map f, fun g hg => ?_⟩
    have hfind' : ((List.range n).find? fun i => g i == '\x00') = some k := by
      refine List.find?_range_eq_some.mpr ⟨?_, hmem, fun j hj => ?_⟩
      · rw [← hg k hle]
        exact hk
      · rw [← hg j (by omega)]
        exact hbefore j hj
    rw [cString, hfind', Option.map_some]
    congr 1
    refine List.map_congr_left fun j hj => ?_
    exact (hg j (by have := List.mem_range.mp hj; omega)).symm

theorem nul_of_cString {f : Nat → Char} {text : List Char} (h : cString n f = some text) : ∃ i < n, f i = '\x00' := by
  unfold cString at h
  obtain ⟨i, hi, -⟩ := Option.map_eq_some_iff.mp h
  obtain ⟨hnul, hmem, -⟩ := List.find?_range_eq_some.mp hi
  exact ⟨i, List.mem_range.mp hmem, by simpa using hnul⟩

end

theorem sound_parseTopLevel (mangled : CString) (out : Nat → Char) (outSize : Nat) (hsize : 1 ≤ outSize) :
    Tracks outSize out (parseTopLevel mangled (some out) outSize).2.2 ∧
    (replays (parseTopLevel mangled (some out) outSize).2.2.trace = false →
      clean (parseTopLevel mangled (some out) outSize).2.2.trace = true) := by
  have hinit : Sound outSize out (initState (some out) outSize) (initMem (some out)) :=
    ⟨⟨rfl, rfl, hsize, nofun, fun _ => Int.negSucc_le_zero 0⟩, nofun, nofun, nofun, fun _ _ => rfl, nofun, nofun⟩
  have hrun := parse_of_parseTopLevel (show (parseTopLevel mangled (some out) outSize).1 = _ from rfl)
  obtain ⟨hsound, hclean⟩ := (congruent_keepsTrack.parse mangled _ hrun).2 hinit
  exact ⟨hsound.tracks, fun hr => hclean hr rfl⟩

/-- Where no stale byte is read, a terminator that is left makes the result well defined. Without a constructor
    or destructor in the name no stale byte is read, and the result is well defined only if a terminator is
    left. -/
theorem defined_of_terminated (mangled : CString) (out : Nat → Char) (outSize : Nat) (hsize : 1 ≤ outSize)
    (h : (demangle mangled (some out) outSize).1 = true) :
    (clean (parseTopLevel mangled (some out) outSize).2.2.trace = true →
      terminated outSize (parseTopLevel mangled (some out) outSize).2.2.trace = true → Defined mangled outSize) ∧
    (replays (parseTopLevel mangled (some out) outSize).2.2.trace = false →
      (Defined mangled outSize ↔ terminated outSize (parseTopLevel mangled (some out) outSize).2.2.trace = true)) := by
  obtain ⟨htracks, hreplays⟩ := sound_parseTopLevel mangled out outSize hsize
  have henough : clean (parseTopLevel mangled (some out) outSize).2.2.trace = true →
      terminated outSize (parseTopLevel mangled (some out) outSize).2.2.trace = true → Defined mangled outSize := by
    intro hclean hterm
    obtain ⟨i, hi, hend⟩ := List.any_eq_true.mp hterm
    obtain ⟨hwritten, hnul⟩ := htracks.ended i hend
    obtain ⟨text, htext⟩ := cString_of_nul (List.mem_range.mp hi) hnul
    refine ⟨text, fun out' _ => htext _ fun j hj => ?_⟩
    obtain ⟨-, -, hagree⟩ := parseTopLevel_alike mangled out out' outSize hclean
    exact hagree.out j (htracks.closed i j hwritten hj)
  refine ⟨henough, fun hr => ⟨fun hdefined => ?_, henough (hreplays hr)⟩⟩
  -- A buffer without any NUL of its own.
  obtain ⟨hverdict, hstate, hagree⟩ := parseTopLevel_alike mangled out (fun _ => 'x') outSize (hreplays hr)
  obtain ⟨htracks', -⟩ := sound_parseTopLevel mangled (fun _ => 'x') outSize hsize
  obtain ⟨text, htext⟩ := hdefined
  have hsuccess : (demangle mangled (some fun _ => 'x') outSize).1 = true := by
    unfold demangle at h ⊢
    simp only [hverdict, hstate]
    exact h
  obtain ⟨i, hi, hnul⟩ := nul_of_cString (htext _ hsuccess)
  have hwritten : written (parseTopLevel mangled (some fun _ => 'x') outSize).2.2.trace i = true := by
    cases hw : written (parseTopLevel mangled (some fun _ => 'x') outSize).2.2.trace i
    · have hstale := htracks'.stale i hw
      rw [show (parseTopLevel mangled (some fun _ => 'x') outSize).2.2.out i = '\x00' from hnul] at hstale
      cases hstale
    · rfl
  rw [hagree.trace] at hr ⊢
  exact List.any_eq_true.mpr ⟨i, List.mem_range.mpr hi, htracks'.left hr i hwritten hnul⟩

theorem defined_of_terminated_f : Defined ⟨"_Z1f".toList, by decide⟩ 8 :=
  ((defined_of_terminated ⟨"_Z1f".toList, by decide⟩ (fun _ => 'x') 8 (by decide) (by decide +kernel)).1
    (by decide +kernel)) (by decide +kernel)

/-- The empty nested name is accepted, and nothing is written. -/
theorem not_defined : ¬ ∀ (mangled : CString) (outSize : Nat), 1 ≤ outSize → Defined mangled outSize := fun h => by
  obtain ⟨text, htext⟩ := h ⟨"_ZNE".toList, by decide⟩ 8 (by decide)
  have hresult := htext (fun _ => 'x') (by decide +kernel)
  have hnone : cString 8 (demangle ⟨"_ZNE".toList, by decide⟩ (some fun _ => 'x') 8).2 = none := by decide +kernel
  rw [hnone] at hresult
  cases hresult

end Glog.Demangle
