import Glog.Demangle.Room

/-! # Runs with buffers of different sizes

A run with room for all of its output is compared with one in a buffer of size `n`. As long as no separator ends behind
that buffer before it is cancelled, the smaller buffer holds the same text up to its end, and an overflow is not undone. -/

namespace Glog.Demangle
open Backtrack Backtrack.Parser

/-- Whether a cancelled separator ended at `e` or before. -/
def Event.cancelsBy (e : Nat) : Event → Bool
  | .cancel outCur => outCur ≤ e
  | _ => true

/-- Every cancelled separator ended at `e` or before. -/
def CancelsBy (e : Nat) (trace : List Event) : Prop := ∀ ev ∈ trace, ev.cancelsBy e = true

instance (e : Nat) (trace : List Event) : Decidable (CancelsBy e trace) :=
  inferInstanceAs (Decidable (∀ ev ∈ trace, ev.cancelsBy e = true))

/-- The first run has room in a buffer of size `size`, and the second one does the same in a buffer of size `n`. -/
structure Ample (size n : Nat) (a b : State × Mem) : Prop where
  snug : Snug size a.1 a.2
  fitting : Fitting n b.1
  control : a.1.control = b.1.control
  out : ∀ i, i + 1 < n → written a.2.trace i = true → a.2.out i = b.2.out i
  last : written a.2.trace (n - 1) = true → a.2.out (n - 1) = '\x00' → b.2.out (n - 1) = '\x00'
  clean : b.1.overflowed = false →
    a.1.outCur = b.1.outCur ∧ a.1.prevName = b.1.prevName ∧ a.1.prevNameLength = b.1.prevNameLength
  late : b.1.overflowed = true → n ≤ a.1.outCur ∧ b.1.outCur + 1 = n

section
variable {size n : Nat} {a b : State × Mem} {str : Str} {length : Int}

theorem maybeAppendWithLength_full {s : State} (h : Fitting n s) (hfull : s.outCur + 1 = n) (hover : s.overflowed = true)
    (str : Str) (length : Int) (m : Mem) : (maybeAppendWithLength str length s m).1.outCur = s.outCur ∧
      (maybeAppendWithLength str length s m).1.overflowed = true ∧
        (maybeAppendWithLength str length s m).2.out = m.out := by
  by_cases hactive : s.append = true ∧ 0 < length
  · have hspelled := maybeAppendWithLength_spelled h hactive str m
    refine ⟨?_, ?_, hspelled.full hfull hover⟩
    · rw [hspelled.outCur]
      omega
    · rw [hspelled.overflowed, hover, Bool.true_or]
  · rw [maybeAppendWithLength, if_neg hactive]
    exact ⟨rfl, hover, rfl⟩

/-- The same text is appended in both runs, and it overflows in the second one where it does not fit. -/
theorem Ample.spelled {len : Nat} {r r' : State × Mem} (h : Ample size n a b) (hclean : b.1.overflowed = false)
    (hlen : 0 < len) (hby : str.EndsBy a.1.outCur len) (hfirst : Spelled size str len a.1 a.2 r)
    (hsecond : Spelled n str len b.1 b.2 r') (hcontrol : r.1.control = r'.1.control) (hsnug : Snug size r.1 r.2)
    (hfit : Fitting n r'.1) (hroomy : Roomy size r.2.trace) : Ample size n r r' := by
  obtain ⟨hcur, hname, hlength⟩ := h.clean hclean
  have hroom := h.fitting.outCur
  have hfits := hfirst.fits h.snug hroomy
  have hbelow : ∀ i < a.1.outCur, a.2.out i = b.2.out i := fun i hi => h.out i (by omega) (h.snug.below i hi)
  have hread : (a.2.read str 0).1 = (b.2.read str 0).1 := read_of_below (hby.mono (Nat.le_refl _) hlen) hbelow
  have hspaces := spaces_congr hlen hby hcur hbelow
  have hle := spaces_le_one str a.1 a.2
  have hby' : str.EndsBy b.1.outCur len := hcur ▸ hby
  have hcount := hfirst.outCur
  have hcount' := hsecond.outCur
  have hover' := hsecond.overflowed
  rw [← hspaces, ← hcur] at hcount' hover'
  rw [hclean, Bool.false_or] at hover'
  have hchars : ∀ i, i + 1 < n → i < a.1.outCur + spaces str a.1 a.2 + len → r.2.out i = r'.2.out i := fun i hi hlt =>
    hfirst.out_congr hsecond hlen hby hcur hbelow hlt (by omega) hi
  have hclean₁ : r.1.overflowed = false := hsnug.overflowed
  by_cases hend : a.1.outCur + spaces str a.1 a.2 + len < n
  · have hclean' : r'.1.overflowed = false := by rw [hover', decide_eq_false (by omega)]
    have hended := hfirst.ended hclean₁
    have hended' := hsecond.ended hclean'
    rw [← hspaces, ← hcur] at hended'
    have habove : ∀ i, a.1.outCur + spaces str a.1 a.2 + len < i → r.2.out i = a.2.out i ∧ r'.2.out i = b.2.out i ∧
        written r.2.trace i = written a.2.trace i := fun i hi => by
      obtain ⟨hout, hwritten⟩ := hfirst.above hclean₁ i hi
      exact ⟨hout, (hsecond.above hclean' i (by omega)).1, hwritten⟩
    refine ⟨hsnug, hfit, hcontrol, fun i hi hw => ?_, fun hw hnul => ?_, fun _ => ⟨by omega, ?_, ?_⟩, fun hc => ?_⟩
    · rcases Nat.lt_trichotomy i (a.1.outCur + spaces str a.1 a.2 + len) with hlt | rfl | hgt
      · exact hchars i hi hlt
      · rw [hended, hended']
      · obtain ⟨hout, hout', hwritten⟩ := habove i hgt
        rw [hout, hout']
        exact h.out i hi (hwritten ▸ hw)
    · by_cases hlast : n - 1 = a.1.outCur + spaces str a.1 a.2 + len
      · rw [hlast, hended']
      · obtain ⟨hout, hout', hwritten⟩ := habove (n - 1) (by omega)
        rw [hout']
        exact h.last (hwritten ▸ hw) (hout ▸ hnul)
    · rw [hfirst.prevName hby (by omega), hsecond.prevName hby' (by omega), hread, ← hspaces, ← hcur, hname]
    · rw [hfirst.prevNameLength hby, hsecond.prevNameLength hby', hread, hlength]
    · cases hclean'.symm.trans hc
  · have hlate' : r'.1.overflowed = true := by rw [hover', decide_eq_true (by omega)]
    refine ⟨hsnug, hfit, hcontrol, fun i hi _ => hchars i hi (by omega), fun _ hnul => ?_, fun hc => ?_,
      fun _ => ⟨by omega, by omega⟩⟩
    · exact absurd hnul (hsnug.solid (n - 1) (by omega))
    · cases hlate'.symm.trans hc

/-- Once the second run has overflowed, what the first one appends lies behind its buffer. -/
theorem Ample.behind {str' : Str} {length' : Int} (h : Ample size n a b) (hlate : b.1.overflowed = true)
    (hsnug : Snug size (maybeAppendWithLength str length a.1 a.2).1 (maybeAppendWithLength str length a.1 a.2).2)
    (hfit : Fitting n (maybeAppendWithLength str' length' b.1 b.2).1) :
    Ample size n (maybeAppendWithLength str length a.1 a.2) (maybeAppendWithLength str' length' b.1 b.2) := by
  obtain ⟨hcur, hfull⟩ := h.late hlate
  have hgrown := maybeAppendWithLength_grown h.snug.fitting str length a.2
  obtain ⟨hcur', hover', hout'⟩ := maybeAppendWithLength_full h.fitting hfull hlate str' length' b.2
  have hsame := maybeAppendWithLength_outputOnly str length a.1 a.2
  have hsame' := maybeAppendWithLength_outputOnly str' length' b.1 b.2
  refine ⟨hsnug, hfit, ?_, fun i hi _ => ?_, fun _ hnul => ?_, fun hc => ?_, fun _ => ⟨?_, ?_⟩⟩
  · rw [hsame.control, hsame'.control]
    exact h.control
  · rw [hgrown.out i (by simp only; omega), hout']
    exact h.out i hi (h.snug.below i (by omega))
  · have hold := hgrown.out (n - 1) (by simp only; omega)
    rw [hout']
    exact h.last (h.snug.below (n - 1) (by omega)) (hold ▸ hnul)
  · cases hover'.symm.trans hc
  · exact Nat.le_trans hcur hgrown.outCur
  · rw [hcur']
    exact hfull

theorem Ample.appended {str' : Str} {length' : Int} (h : Ample size n a b)
    (hsame : b.1.overflowed = false → str = str' ∧ length = length' ∧ str.EndsBy a.1.outCur length.toNat)
    (hsnug : Snug size (maybeAppendWithLength str length a.1 a.2).1 (maybeAppendWithLength str length a.1 a.2).2)
    (hfit : Fitting n (maybeAppendWithLength str' length' b.1 b.2).1)
    (hroomy : Roomy size (maybeAppendWithLength str length a.1 a.2).2.trace) :
    Ample size n (maybeAppendWithLength str length a.1 a.2) (maybeAppendWithLength str' length' b.1 b.2) := by
  cases hover : b.1.overflowed with
  | true => exact h.behind hover hsnug hfit
  | false =>
    obtain ⟨rfl, rfl, hby⟩ := hsame hover
    have happend : a.1.append = b.1.append := congrArg Control.append h.control
    by_cases hactive : a.1.append = true ∧ 0 < length
    · have hactive' : b.1.append = true ∧ 0 < length := ⟨happend ▸ hactive.1, hactive.2⟩
      have hcontrol : (maybeAppendWithLength str length a.1 a.2).1.control =
          (maybeAppendWithLength str length b.1 b.2).1.control := by
        rw [(maybeAppendWithLength_outputOnly str length a.1 a.2).control,
          (maybeAppendWithLength_outputOnly str length b.1 b.2).control]
        exact h.control
      exact h.spelled hover (by omega) hby (maybeAppendWithLength_spelled h.snug.fitting hactive str a.2)
        (maybeAppendWithLength_spelled h.fitting hactive' str b.2) hcontrol hsnug hfit hroomy
    · have hactive' : ¬ (b.1.append = true ∧ 0 < length) := by rwa [← happend]
      rw [maybeAppendWithLength, maybeAppendWithLength, if_neg hactive, if_neg hactive']
      exact h

theorem Snug.endsBy {s : State} {m : Mem} (h : Snug n s m) :
    (Str.out s.prevName).EndsBy s.outCur s.prevNameLength.toNat := by
  cases hname : s.prevName with
  | none => trivial
  | some start => exact h.named start hname

/-- Enough room for the first run, and no separator that ended behind the buffer of the second one. -/
def RoomyFor (size n : Nat) (trace : List Event) : Prop := Roomy size trace ∧ CancelsBy (n - 1) trace

/-- The separator that is cancelled ended in the buffer, so that both runs go back to where it was appended. -/
theorem Ample.cancelled {s t : State} {m u m' u' : Mem} (h : Ample size n (s, m) (t, u))
    (h' : Ample size n ((maybeAppendSeparator s m).1, m') ((maybeAppendSeparator t u).1, u'))
    (hgrown : Grown (s, m) ((maybeAppendSeparator s m).1, m'))
    (hgood : RoomyFor size n (maybeCancelLastSeparator (maybeAppendSeparator s m).1 m').2.trace) :
    Ample size n (maybeCancelLastSeparator (maybeAppendSeparator s m).1 m')
      (maybeCancelLastSeparator (maybeAppendSeparator t u).1 u') := by
  have happend : s.append = t.append := congrArg Control.append h.control
  have hnest : s.nestLevel = t.nestLevel := congrArg Control.nestLevel h.control
  by_cases hactive : s.nestLevel ≥ 1 ∧ s.append = true
  · have hactive' : t.nestLevel ≥ 1 ∧ t.append = true := by rwa [← hnest, ← happend]
    have hroom : s.outCur + 2 < size := h.snug.room
    have hpos : t.outCur < n := h.fitting.outCur
    have hlate := h'.late
    have hsnug := (h.snug.cancelled h'.snug hgrown).1
    rw [cancel_separator h.snug.fitting hactive hroom] at hgood hsnug ⊢
    have hend : s.outCur + 2 ≤ n - 1 := by
      have hby := hgood.2 (.cancel (s.outCur + 2)) (List.mem_cons_of_mem _ (List.mem_cons_self ..))
      exact of_decide_eq_true hby
    rw [separator_state h.snug.fitting hactive, separator_state h.fitting hactive'] at hlate
    simp only at hlate
    have hclean : (t.overflowed || decide (n ≤ t.outCur + 2)) = false := by
      cases hover : t.overflowed || decide (n ≤ t.outCur + 2) with
      | true =>
        have hbehind := (hlate hover).1
        omega
      | false => rfl
    rw [Bool.or_eq_false_iff, decide_eq_false_iff_not] at hclean
    have hcur : s.outCur = t.outCur := (h.clean hclean.1).1
    rw [cancel_separator h.fitting hactive' (Nat.lt_of_not_le hclean.2), ← hcur]
    have hwritten : ∀ i, i ≠ s.outCur → written ((m'.note (.cancel (s.outCur + 2))).write s.outCur '\x00').trace i = true →
        written m'.trace i = true := fun i hi hw => by
      rw [Mem.write, written_cons_write, beq_false_of_ne (Ne.symm hi)] at hw
      exact hw
    refine ⟨hsnug, h.fitting, h.control, fun i hi hw => ?_, fun hw hnul => ?_, h.clean, h.late⟩
    · rw [write_out, write_out]
      split
      · rfl
      · rename_i hne
        exact h'.out i hi (hwritten i hne hw)
    · rw [write_out] at hnul ⊢
      split
      · rfl
      · rename_i hne
        rw [if_neg hne] at hnul
        exact h'.last (hwritten _ hne hw) hnul
  · have hactive' : ¬ (t.nestLevel ≥ 1 ∧ t.append = true) := by rwa [← hnest, ← happend]
    obtain ⟨hsep, hcancel⟩ := separator_idle hactive m m'
    obtain ⟨hsep', hcancel'⟩ := separator_idle hactive' u u'
    rw [hsep, hsep'] at h' ⊢
    rw [hcancel, hcancel']
    exact h'

theorem RoomyFor.older {es fs : List Event} (h : es <:+ fs) (hfs : RoomyFor size n fs) : RoomyFor size n es :=
  ⟨hfs.1.older h, fun e he => hfs.2 e (h.subset he)⟩

theorem lockstep_ample : Lockstep (KeepsText size) (RoomyFor size n) (Ample size n) where
  known := congruous_keepsText
  separates := separates_keepsText
  older := RoomyFor.older
  control h := h.control
  note h _ := by
    refine ⟨⟨h.snug.fitting, h.snug.overflowed, h.snug.room, h.snug.solid, h.snug.below, h.snug.named⟩, h.fitting,
      h.control, h.out, h.last, h.clean, h.late⟩
  back hJ hrun _ hgood h h' := by
    obtain ⟨hsuffix, hkeep⟩ := hJ hrun
    obtain ⟨-, hgrown⟩ := hkeep hgood.1 h.snug
    refine ⟨⟨h.snug.fitting, h.snug.overflowed, h.snug.room, fun i hi => ?_, fun i hi => ?_, h.snug.named⟩,
      h.fitting, h.control, h'.out, h'.last, h.clean, h.late⟩
    · have hsolid := h.snug.solid i hi
      rwa [← hgrown.out i hi] at hsolid
    · exact written_of_suffix hsuffix (h.snug.below i hi)
  step h c := by
    have hfit := h.snug.fitting
    exact ⟨⟨⟨hfit.outNull, hfit.outEnd, hfit.outCur, hfit.prevName, hfit.prevNameLength⟩, h.snug.overflowed, h.snug.room,
      h.snug.solid, h.snug.below, h.snug.named⟩, ⟨h.fitting.outNull, h.fitting.outEnd, h.fitting.outCur, h.fitting.prevName,
      h.fitting.prevNameLength⟩, rfl, h.out, h.last, h.clean, h.late⟩
  text chars hnul := fun _ _ _ _ h hgood =>
    h.appended (fun _ => ⟨rfl, rfl, trivial⟩) (h.snug.text chars hnul hgood.1) (keeps_text chars _ h.fitting).1 hgood.1
  replay := fun _ _ _ _ h hgood => by
    refine h.appended (fun hclean => ?_) (h.snug.replay hgood.1) (keeps_replayName h.fitting).1 hgood.1
    obtain ⟨-, hname, hlength⟩ := h.clean hclean
    exact ⟨congrArg Str.out hname, hlength, h.snug.endsBy⟩
  separated hJ hrun _ hgood h h' := by
    have hgood' := hgood.1.older (maybeCancelLastSeparator_outputOnly ..).trace
    exact h.cancelled h' (KeepsText.separated hJ hrun hgood' h.snug) hgood

end

end Glog.Demangle
