import Glog.Demangle.Terminator

/-! # How far an appended text reaches

`Append` copies what there is room for. What it leaves in the buffer, and where its cursor stops, is a matter of the
cursor, the length of the text and the size of the buffer. -/

namespace Glog.Demangle
open Backtrack Backtrack.Parser

/-- The first `len` characters of the text do not lie behind `bound`, if they are in the buffer at all. -/
def Str.EndsBy (bound len : Nat) : Str → Prop
  | .out (some start) => start + len ≤ bound
  | _ => True

/-- What `Append` of `len` characters does in a buffer of size `n`. -/
structure Appended (n : Nat) (str : Str) (len : Nat) (s : State) (m : Mem) (r : State × Mem) : Prop where
  outCur : r.1.outCur = min (s.outCur + len) (n - 1)
  overflowed : r.1.overflowed = (s.overflowed || decide (n ≤ s.outCur + len))
  text : str.EndsBy s.outCur len → ∀ q < len, s.outCur + q + 1 < n → r.2.out (s.outCur + q) = (m.read str q).1
  ended : r.1.overflowed = false → r.2.out (s.outCur + len) = '\x00'
  out : ∀ i, i < s.outCur ∨ r.1.outCur ≤ i → r.1.overflowed = true ∨ i ≠ s.outCur + len → r.2.out i = m.out i
  written : ∀ i, written r.2.trace i = (written m.trace i || decide (s.outCur ≤ i ∧ i < r.1.outCur) ||
    (!r.1.overflowed && i == s.outCur + len))

section
variable {n len : Nat} {s : State} {m : Mem} {str : Str} {length : Int}

theorem read_write_of_endsBy {i bound : Nat} (h : str.EndsBy bound (i + 1)) {j : Nat} (hj : bound ≤ j) (c : Char) :
    ((m.write j c).read str i).1 = (m.read str i).1 := by
  match str with
  | .text chars => rfl
  | .out none => rfl
  | .out (some start) =>
    simp only [Str.EndsBy] at h
    exact (write_out ..).trans (if_neg (by omega))

theorem Str.EndsBy.mono {bound bound' len' : Nat} (h : str.EndsBy bound len) (hbound : bound ≤ bound') (hlen : len' ≤ len) :
    str.EndsBy bound' len' := by
  match str with
  | .text chars => trivial
  | .out none => trivial
  | .out (some start) =>
    simp only [Str.EndsBy] at h ⊢
    omega

theorem read_of_out {m₁ : Mem} (h : m₁.out = m.out) (i : Nat) : (m₁.read str i).1 = (m.read str i).1 := by
  match str with
  | .text chars => rfl
  | .out none => rfl
  | .out (some start) => exact congrFun h _

/-- The loop of `Append` copies a text that ends before the cursor. -/
theorem appendLoop_read (str : Str) : ∀ (left i : Nat) (s : State) (m : Mem), s.outEnd = n → s.outCur < n →
    str.EndsBy s.outCur (i + left) → ∀ q < left, s.outCur + q + 1 < n →
      (appendLoop str left i s m).2.out (s.outCur + q) = (m.read str (i + q)).1
  | 0, _, _, _, _, _, _ => fun _ hq => absurd hq (Nat.not_lt_zero _)
  | left + 1, i, s, m, hend, hcur, hby => fun q hq hroom => by
    unfold appendLoop
    rw [if_pos (by omega)]
    dsimp only
    have hread : ((m.read str i).2.write s.outCur (m.read str i).1).out s.outCur = (m.read str i).1 :=
      (write_out ..).trans (if_pos rfl)
    cases q with
    | zero =>
      have hrest := appendLoop_copied (n := n) str left (i + 1) { s with outCur := s.outCur + 1 }
        ((m.read str i).2.write s.outCur (m.read str i).1) hend (by simp only; omega)
      simp only [Nat.add_zero]
      exact (hrest.frame s.outCur (by simp only; omega)).trans hread
    | succ q =>
      have hstep := appendLoop_read str left (i + 1) { s with outCur := s.outCur + 1 }
        ((m.read str i).2.write s.outCur (m.read str i).1) hend (by simp only; omega)
        (hby.mono (by simp only; omega) (by omega)) q (by omega) (by simp only; omega)
      have hcur' : s.outCur + (q + 1) = s.outCur + 1 + q := by omega
      have hpos : i + (q + 1) = i + 1 + q := by omega
      rw [hcur', hpos]
      refine hstep.trans ?_
      rw [read_write_of_endsBy (hby.mono (Nat.le_refl _) (by omega)) (Nat.le_refl _)]
      exact read_of_out (read_same (n := n) str i m).1 _

theorem append_appended (h : Fitting n s) (str : Str) (length : Int) (m : Mem) :
    Appended n str length.toNat s m (append str length s m) := by
  have hcur := h.outCur
  have hcopied := appendLoop_copied str length.toNat 0 s
    (m.note (.append str length.toNat s.outCur s.overflowed)) h.outEnd hcur
  have hover := appendLoop_overflowed str length.toNat 0 s
    (m.note (.append str length.toNat s.outCur s.overflowed)) h.outEnd hcur
  have htext := appendLoop_read str length.toNat 0 s
    (m.note (.append str length.toNat s.outCur s.overflowed)) h.outEnd hcur
  rw [append_eq h]
  generalize appendLoop str length.toNat 0 s (m.note (.append str length.toNat s.outCur s.overflowed)) = r
    at hcopied hover htext ⊢
  have hcount : r.1.outCur = min (s.outCur + length.toNat) (n - 1) := by
    rw [hcopied.outCur]
    omega
  have hchars : str.EndsBy s.outCur length.toNat → ∀ q < length.toNat, s.outCur + q + 1 < n →
      r.2.out (s.outCur + q) = (m.read str q).1 := fun hby q hq hroom => by
    rw [htext (by rwa [Nat.zero_add]) q hq hroom, Nat.zero_add]
    refine read_of_out ?_ q
    rfl
  have hmarks : ∀ i, written r.2.trace i = (written m.trace i || decide (s.outCur ≤ i ∧ i < r.1.outCur)) := fun i => by
    rw [hcopied.written, hcopied.outCur]
    rfl
  have hsame : ∀ i, i < s.outCur ∨ r.1.outCur ≤ i → r.2.out i = m.out i := fun i hi => by
    refine hcopied.frame i ?_
    rw [← hcopied.outCur]
    omega
  dsimp only
  cases ho : r.1.overflowed with
  | true =>
    rw [if_pos rfl]
    refine ⟨hcount, hover, hchars, fun hc => ?_, fun i hi _ => hsame i hi, fun i => ?_⟩
    · cases ho.symm.trans hc
    · rw [hmarks, ho, Bool.not_true, Bool.false_and, Bool.or_false]
  | false =>
    have hfits : s.outCur + length.toNat < n := by
      rw [ho, Bool.false_eq, Bool.or_eq_false_iff, decide_eq_false_iff_not] at hover
      exact Nat.lt_of_not_le hover.2
    have hlast : r.1.outCur = s.outCur + length.toNat := by omega
    rw [if_neg Bool.false_ne_true]
    refine ⟨hcount, hover, fun hby q hq hroom => ?_, fun _ => ?_, fun i hi hne => ?_, fun i => ?_⟩
    · rw [write_out, if_neg (by omega)]
      exact hchars hby q hq hroom
    · rw [write_out, if_pos hlast.symm]
    · rcases hne with hc | hne
      · cases ho.symm.trans hc
      · rw [write_out, if_neg (by omega)]
        exact hsame i hi
    · rw [Mem.write, written_cons_write, hmarks, ho, Bool.not_false, Bool.true_and, hlast, Bool.or_comm, Bool.beq_comm]

/-- With no room left, an output that has overflowed is not written to. -/
theorem Appended.full {r : State × Mem} (h : Appended n str len s m r) (hfull : s.outCur + 1 = n)
    (hover : s.overflowed = true) :
    r.1.outCur = s.outCur ∧ r.1.overflowed = true ∧ r.2.out = m.out := by
  have hcur : r.1.outCur = s.outCur := by
    rw [h.outCur]
    omega
  have hlate : r.1.overflowed = true := by rw [h.overflowed, hover, Bool.true_or]
  refine ⟨hcur, hlate, funext fun i => h.out i ?_ (Or.inl hlate)⟩
  omega

/-! ### The output functions -/

/-- How many spaces are appended before `str`. -/
def spaces (str : Str) (s : State) (m : Mem) : Nat :=
  if (m.read str 0).1 = '<' ∧ 0 < s.outCur ∧ m.out (s.outCur - 1) = '<' then 1 else 0

theorem appendSpace_eq (str : Str) (s : State) (m : Mem) : ∃ m₁ : Mem, m₁.out = m.out ∧
    (∀ i, written m₁.trace i = written m.trace i) ∧
    appendSpace str s m = if spaces str s m = 1 then append (.text [' ']) 1 s m₁ else (s, m₁) := by
  obtain ⟨hout, hwritten, -⟩ := read_same (n := 0) str 0 m
  have hlast : (((m.read str 0).2.read (.out (some (s.outCur - 1))) 0).1 = '<') = (m.out (s.outCur - 1) = '<') := by
    rw [read_of_out hout]
    rfl
  unfold appendSpace spaces
  dsimp only
  simp only [hlast]
  by_cases hfirst : (m.read str 0).1 = '<' ∧ 0 < s.outCur
  · by_cases hend : m.out (s.outCur - 1) = '<'
    · refine ⟨((m.read str 0).2.read (.out (some (s.outCur - 1))) 0).2, hout, hwritten, ?_⟩
      rw [if_pos hfirst, if_pos hend, if_pos (if_pos ⟨hfirst.1, hfirst.2, hend⟩)]
    · refine ⟨((m.read str 0).2.read (.out (some (s.outCur - 1))) 0).2, hout, hwritten, ?_⟩
      rw [if_pos hfirst, if_neg hend, if_neg]
      rw [if_neg fun hc => hend hc.2.2]
      exact Nat.zero_ne_one
  · refine ⟨(m.read str 0).2, hout, hwritten, ?_⟩
    rw [if_neg hfirst, if_neg]
    rw [if_neg fun hc => hfirst ⟨hc.1, hc.2.1⟩]
    exact Nat.zero_ne_one

/-- What is known of `MaybeAppendWithLength` of `len` characters, where something is appended. -/
structure Spelled (n : Nat) (str : Str) (len : Nat) (s : State) (m : Mem) (r : State × Mem) : Prop where
  outCur : r.1.outCur = min (s.outCur + spaces str s m + len) (n - 1)
  overflowed : r.1.overflowed = (s.overflowed || decide (n ≤ s.outCur + spaces str s m + len))
  below : ∀ i < s.outCur, r.2.out i = m.out i
  space : spaces str s m = 1 → s.outCur + 1 < n → r.2.out s.outCur = ' '
  text : str.EndsBy s.outCur len → ∀ q < len, s.outCur + spaces str s m + q + 1 < n →
    r.2.out (s.outCur + spaces str s m + q) = (m.read str q).1
  ended : r.1.overflowed = false → r.2.out (s.outCur + spaces str s m + len) = '\x00'
  above : r.1.overflowed = false → ∀ i, s.outCur + spaces str s m + len < i →
    r.2.out i = m.out i ∧ written r.2.trace i = written m.trace i
  marked : ∀ i, s.outCur ≤ i → i < r.1.outCur → written r.2.trace i = true
  prevName : str.EndsBy s.outCur len → s.outCur + spaces str s m < n → r.1.prevName =
    if isAlpha (m.read str 0).1 || (m.read str 0).1 == '_' then some (s.outCur + spaces str s m) else s.prevName
  prevNameLength : str.EndsBy s.outCur len → r.1.prevNameLength =
    if isAlpha (m.read str 0).1 || (m.read str 0).1 == '_' then (len : Int) else s.prevNameLength
  full : s.outCur + 1 = n → s.overflowed = true → r.2.out = m.out
  spaced : spaces str s m = 1 → .append (.text [' ']) 1 s.outCur s.overflowed ∈ r.2.trace
  appended : ∃ o, .append str len (min (s.outCur + spaces str s m) (n - 1)) o ∈ r.2.trace

/-- What is known of the output once the space is there. -/
structure Spaced (n : Nat) (str : Str) (s : State) (m : Mem) (a : State × Mem) : Prop where
  outCur : a.1.outCur = min (s.outCur + spaces str s m) (n - 1)
  overflowed : a.1.overflowed = (s.overflowed || decide (n ≤ s.outCur + spaces str s m))
  below : ∀ i < s.outCur, a.2.out i = m.out i
  space : spaces str s m = 1 → s.outCur + 1 < n → a.2.out s.outCur = ' '
  above : a.1.overflowed = false → ∀ i, s.outCur + spaces str s m < i →
    a.2.out i = m.out i ∧ written a.2.trace i = written m.trace i
  marked : ∀ i, s.outCur ≤ i → i < a.1.outCur → written a.2.trace i = true
  full : s.outCur + 1 = n → s.overflowed = true → a.2.out = m.out
  spaced : spaces str s m = 1 → .append (.text [' ']) 1 s.outCur s.overflowed ∈ a.2.trace

theorem spaces_le_one (str : Str) (s : State) (m : Mem) : spaces str s m ≤ 1 := by
  unfold spaces
  split <;> decide

theorem append_mem_trace (str : Str) (length : Int) (s : State) (m : Mem) :
    .append str length.toNat s.outCur s.overflowed ∈ (append str length s m).2.trace := by
  have hnote : (m.note (.append str length.toNat s.outCur s.overflowed)).trace <:+ (append str length s m).2.trace := by
    unfold append
    dsimp only
    split
    · exact List.suffix_refl _
    · split
      · exact (appendLoop_outputOnly ..).trace
      · exact (appendLoop_outputOnly ..).trace.trans (write_outputOnly _ _ s _).trace
  exact hnote.subset (List.mem_cons_self ..)

theorem appendSpace_spaced (h : Fitting n s) (str : Str) (m : Mem) : Spaced n str s m (appendSpace str s m) := by
  have hcur := h.outCur
  obtain ⟨m₁, hout, hwritten, heq⟩ := appendSpace_eq str s m
  rw [heq]
  by_cases hone : spaces str s m = 1
  · rw [if_pos hone]
    have happended := append_appended h (.text [' ']) 1 m₁
    have hcount : (append (.text [' ']) 1 s m₁).1.outCur = min (s.outCur + 1) (n - 1) := happended.outCur
    have hover : (append (.text [' ']) 1 s m₁).1.overflowed = (s.overflowed || decide (n ≤ s.outCur + 1)) :=
      happended.overflowed
    refine ⟨by rw [hone]; exact hcount, by rw [hone]; exact hover, fun i hi => ?_, fun _ hroom => ?_, fun hclean i hi => ?_,
      fun i hle hlt => ?_, fun hfull hlate => ?_, fun _ => append_mem_trace ..⟩
    · rw [happended.out i (Or.inl hi) (Or.inr (by omega)), hout]
    · exact happended.text trivial 0 Nat.one_pos hroom
    · rw [hone] at hi
      have hne : i ≠ s.outCur + (1 : Int).toNat := Nat.ne_of_gt hi
      refine ⟨?_, ?_⟩
      · rw [happended.out i (Or.inr (by omega)) (Or.inr hne), hout]
      · rw [happended.written, hwritten, decide_eq_false (by omega), beq_false_of_ne hne, Bool.and_false, Bool.or_false,
          Bool.or_false]
    · rw [happended.written, decide_eq_true ⟨hle, hlt⟩, Bool.or_true, Bool.true_or]
    · rw [(happended.full hfull hlate).2.2, hout]
  · have hzero : spaces str s m = 0 := by
      have := spaces_le_one str s m
      omega
    rw [if_neg hone]
    refine ⟨?_, ?_,
      fun i _ => by rw [hout], fun hc => absurd hc hone, fun _ i _ => ⟨by rw [hout], hwritten i⟩, fun i hle hlt => ?_,
      fun _ _ => hout, fun hc => absurd hc hone⟩
    · rw [hzero]
      simp only
      omega
    · rw [hzero, decide_eq_false (by omega), Bool.or_false]
    · simp only at hlt
      omega

theorem read_of_below {m₁ : Mem} {bound i : Nat} (hby : str.EndsBy bound (i + 1)) (h : ∀ j < bound, m₁.out j = m.out j) :
    (m₁.read str i).1 = (m.read str i).1 := by
  match str with
  | .text chars => rfl
  | .out none => rfl
  | .out (some start) =>
    simp only [Str.EndsBy] at hby
    exact h (start + i) (by omega)

theorem Fitting.spaced {a : State × Mem} (h : Fitting n s) (hspaced : Spaced n str s m a) (hsame : OutputOnly (s, m) a)
    (hname : a.1.prevName = s.prevName ∧ a.1.prevNameLength = s.prevNameLength) : Fitting n a.1 where
  outNull := hsame.outNull.trans h.outNull
  outEnd := hsame.outEnd.trans h.outEnd
  outCur := by
    have := h.outCur
    rw [hspaced.outCur]
    omega
  prevName := by
    rw [hname.1]
    exact h.prevName
  prevNameLength := by
    rw [hname.1, hname.2]
    exact h.prevNameLength

theorem Fitting.remember (h : Fitting n s) (c : Bool) (length : Int) :
    Fitting n (if c then { s with prevName := some s.outCur, prevNameLength := length } else s) := by
  split
  · refine ⟨h.outNull, h.outEnd, h.outCur, fun p hp => ?_, nofun⟩
    cases hp
    exact h.outCur
  · exact h

theorem Spaced.congr {a a' : State × Mem} (h : Spaced n str s m a) (hcur : a'.1.outCur = a.1.outCur)
    (hover : a'.1.overflowed = a.1.overflowed) (hout : a'.2.out = a.2.out)
    (hwritten : ∀ i, written a'.2.trace i = written a.2.trace i) (htrace : a.2.trace <:+ a'.2.trace) :
    Spaced n str s m a' where
  outCur := hcur.trans h.outCur
  overflowed := hover.trans h.overflowed
  below i hi := by
    rw [hout]
    exact h.below i hi
  space hone hroom := by
    rw [hout]
    exact h.space hone hroom
  above hclean i hi := by
    rw [hout, hwritten]
    exact h.above (hover.symm.trans hclean) i hi
  marked i hle hlt := by
    rw [hwritten]
    exact h.marked i hle (hcur ▸ hlt)
  full hfull hlate := hout.trans (h.full hfull hlate)
  spaced hone := htrace.subset (h.spaced hone)

/-- The text behind the space. -/
theorem Spaced.spelled {b : State × Mem} (h : Spaced n str s m b) (hfit : Fitting n b.1) (hcur : s.outCur < n)
    (hprevName : str.EndsBy s.outCur length.toNat → s.outCur + spaces str s m < n → b.1.prevName =
      if isAlpha (m.read str 0).1 || (m.read str 0).1 == '_' then some (s.outCur + spaces str s m) else s.prevName)
    (hprevNameLength : str.EndsBy s.outCur length.toNat → b.1.prevNameLength =
      if isAlpha (m.read str 0).1 || (m.read str 0).1 == '_' then (length.toNat : Int) else s.prevNameLength) :
    Spelled n str length.toNat s m (append str length b.1 b.2) := by
  have hle := spaces_le_one str s m
  have hcount := h.outCur
  have hover := h.overflowed
  have happended := append_appended hfit str length b.2
  have hevent := append_mem_trace str length b.1 b.2
  have hkeep := append_prevName str length b.1 b.2
  have hgrow := (append_outputOnly str length b.1 b.2).trace
  generalize append str length b.1 b.2 = r at happended hevent hkeep hgrow ⊢
  have hrcur := happended.outCur
  have hrover := happended.overflowed
  rw [hcount] at hrcur
  have hclean : r.1.overflowed = false → b.1.overflowed = false ∧
      s.outCur + spaces str s m + length.toNat < n := fun hc => by
    rw [hrover, Bool.or_eq_false_iff, decide_eq_false_iff_not] at hc
    refine ⟨hc.1, ?_⟩
    rw [hover, Bool.or_eq_false_iff, decide_eq_false_iff_not] at hc
    omega
  have hold : ∀ i, i < s.outCur ∨ r.1.outCur ≤ i ∧ r.1.overflowed = false → i ≠ b.1.outCur + length.toNat →
      r.2.out i = b.2.out i := fun i hi hne => happended.out i (by omega) (Or.inr hne)
  refine ⟨?_, ?_, fun i hi => ?_, fun hone hroom => ?_, fun hby q hq hroom => ?_, fun hc => ?_, fun hc i hi => ?_,
    fun i hle hlt => ?_, fun hby hroom => hkeep.1.trans (hprevName hby hroom), fun hby =>
      hkeep.2.trans (hprevNameLength hby),
    fun hfull hlate => ?_, fun hone => hgrow.subset (h.spaced hone), ?_⟩
  · rw [hrcur]
    omega
  · rw [hrover, hover, hcount, Bool.or_assoc]
    congr 1
    rw [Bool.eq_iff_iff, Bool.or_eq_true, decide_eq_true_eq, decide_eq_true_eq, decide_eq_true_eq]
    omega
  · rw [hold i (Or.inl hi) (by omega)]
    exact h.below i hi
  · rw [happended.out s.outCur (by omega) (Or.inr (by omega))]
    exact h.space hone hroom
  · have hstart : b.1.outCur = s.outCur + spaces str s m := by omega
    have htext := happended.text (hby.mono (by omega) (Nat.le_refl _)) q hq (by omega)
    rw [hstart] at htext
    rw [htext]
    -- The text is read as it was before the space.
    exact read_of_below (hby.mono (Nat.le_refl _) (by omega)) h.below
  · obtain ⟨-, hfits⟩ := hclean hc
    have hend := happended.ended hc
    rwa [hcount, Nat.min_eq_left (by omega)] at hend
  · obtain ⟨hb, hfits⟩ := hclean hc
    obtain ⟨hsame, hmark⟩ := h.above hb i (by omega)
    refine ⟨?_, ?_⟩
    · rw [hold i (Or.inr ⟨by omega, hc⟩) (by omega)]
      exact hsame
    · rw [happended.written, hmark, decide_eq_false (by omega), beq_false_of_ne (by omega), Bool.and_false, Bool.or_false,
        Bool.or_false]
  · rw [happended.written]
    by_cases hlast : i < b.1.outCur
    · rw [h.marked i hle hlast, Bool.true_or, Bool.true_or]
    · rw [decide_eq_true (show b.1.outCur ≤ i ∧ i < r.1.outCur by omega), Bool.or_true, Bool.true_or]
  · have hlate' : b.1.overflowed = true := by rw [hover, hlate, Bool.true_or]
    rw [(happended.full (by omega) hlate').2.2]
    exact h.full hfull hlate
  · rw [← hcount]
    exact ⟨_, hevent⟩

theorem maybeAppendWithLength_spelled (h : Fitting n s) (hactive : s.append = true ∧ 0 < length) (str : Str) (m : Mem) :
    Spelled n str length.toNat s m (maybeAppendWithLength str length s m) := by
  have hlen : 0 < length.toNat := by omega
  have hspaced := appendSpace_spaced h str m
  have hname := appendSpace_prevName str s m
  have hfit := h.spaced hspaced (appendSpace_outputOnly str s m) hname
  rw [maybeAppendWithLength, if_pos hactive]
  generalize appendSpace str s m = a at hspaced hname hfit ⊢
  dsimp only
  rw [rememberName_eq]
  have hread : str.EndsBy s.outCur length.toNat → (a.2.read str 0).1 = (m.read str 0).1 := fun hby =>
    read_of_below (hby.mono (Nat.le_refl _) (by omega)) hspaced.below
  obtain ⟨hout, hwritten, -⟩ := read_same (n := n) str 0 a.2
  have hremembered := hfit.remember (isAlpha (a.2.read str 0).1 || (a.2.read str 0).1 == '_') length
  refine Spaced.spelled (b := (if isAlpha (a.2.read str 0).1 || (a.2.read str 0).1 == '_' then
    { a.1 with prevName := some a.1.outCur, prevNameLength := length } else a.1, (a.2.read str 0).2))
    (hspaced.congr ?_ ?_ hout hwritten (read_outputOnly str 0 a.1 a.2).trace) hremembered h.outCur
      (fun hby hroom => ?_) fun hby => ?_
  · dsimp only
    split <;> rfl
  · dsimp only
    split <;> rfl
  · have hstart : a.1.outCur = s.outCur + spaces str s m := hspaced.outCur.trans (Nat.min_eq_left (by omega))
    rw [hread hby, hstart]
    split
    · rfl
    · exact hname.1
  · rw [hread hby]
    split
    · exact (Int.toNat_of_nonneg (Int.le_of_lt hactive.2)).symm
    · exact hname.2

/-! ### The same text in two buffers -/

section
variable {size : Nat} {t : State} {u : Mem} {r r' : State × Mem}

theorem spaces_congr (hlen : 0 < len) (hby : str.EndsBy s.outCur len) (hcur : s.outCur = t.outCur)
    (hbelow : ∀ i < s.outCur, m.out i = u.out i) : spaces str s m = spaces str t u := by
  have hread : (m.read str 0).1 = (u.read str 0).1 := read_of_below (hby.mono (Nat.le_refl _) hlen) hbelow
  unfold spaces
  rw [hread, ← hcur]
  by_cases hpos : 0 < s.outCur
  · rw [hbelow (s.outCur - 1) (by omega)]
  · simp only [hpos, false_and, and_false]

/-- Buffers that agree before the cursor agree up to the end of the text that is appended. -/
theorem Spelled.out_congr (hfirst : Spelled size str len s m r) (hsecond : Spelled n str len t u r') (hlen : 0 < len)
    (hby : str.EndsBy s.outCur len) (hcur : s.outCur = t.outCur) (hbelow : ∀ i < s.outCur, m.out i = u.out i) {i : Nat}
    (hi : i < s.outCur + spaces str s m + len) (hsize : i + 1 < size) (hn : i + 1 < n) : r.2.out i = r'.2.out i := by
  have hspaces := spaces_congr hlen hby hcur hbelow
  have hle := spaces_le_one str s m
  by_cases hold : i < s.outCur
  · rw [hfirst.below i hold, hsecond.below i (hcur ▸ hold)]
    exact hbelow i hold
  · by_cases hspace : i < s.outCur + spaces str s m
    · have hi' : i = s.outCur := by omega
      have hspace' := hsecond.space (by omega) (by omega)
      rw [← hcur] at hspace'
      rw [hi', hfirst.space (by omega) (by omega), hspace']
    · obtain ⟨q, rfl⟩ := Nat.exists_eq_add_of_le (Nat.le_of_not_lt hspace)
      have htext' := hsecond.text (hcur ▸ hby) q (by omega) (by omega)
      rw [← hspaces, ← hcur] at htext'
      rw [hfirst.text hby q (by omega) (by omega), htext']
      exact read_of_below (hby.mono (Nat.le_refl _) (by omega)) hbelow

end

end

end Glog.Demangle
