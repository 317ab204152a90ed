import Glog.Demangle.Sizes

/-! # Buffers that are too small

In a buffer that is smaller than the result the output overflows. An overflow is undone only with the text that caused
it, in an alternative that is given up, and there it may cost the last bytes of the text before: a separator that did
not fit is cancelled two bytes before the end of the buffer. -/

namespace Glog.Demangle
open Backtrack Backtrack.Parser

/-- The outputs have the same length, and agree but for the last three bytes of the smaller buffer. -/
structure Level (n : Nat) (a b : State × Mem) : Prop where
  outCur : a.1.outCur = b.1.outCur
  prevName : b.1.outCur + 1 < n → a.1.prevName = b.1.prevName
  out : ∀ i < a.1.outCur, i + 3 < n → a.2.out i = b.2.out i

/-- The smaller buffer is full, and a space before the last character is missing in it. -/
def Shifted (n : Nat) (a b : State × Mem) : Prop :=
  b.1.outCur + 1 = n ∧ a.1.outCur = n ∧ .append (.text [' ']) 1 (n - 2) false ∈ a.2.trace

/-- The first run has room in a buffer of size `size`. The second one, with a buffer of size `n`, keeps pace with it
until it overflows. -/
structure Scant (size n : Nat) (a b : State × Mem) : Prop where
  snug : Snug size a.1 a.2
  fitting : Fitting n b.1
  control : a.1.control = b.1.control
  clean : b.1.overflowed = false → a.1.prevNameLength = b.1.prevNameLength ∧ (Level n a b ∨ Shifted n a b)

section
variable {size n : Nat} {a b : State × Mem} {str str' : Str} {length length' : Int}

theorem maybeAppendWithLength_overflowed {s : State} (h : Fitting n s) (hover : s.overflowed = true) (str : Str)
    (length : Int) (m : Mem) : (maybeAppendWithLength str length s m).1.overflowed = true := by
  by_cases hactive : s.append = true ∧ 0 < length
  · rw [(maybeAppendWithLength_spelled h hactive str m).overflowed, hover, Bool.true_or]
  · rw [maybeAppendWithLength, if_neg hactive]
    exact hover

/-- The same text is appended in both runs. -/
theorem Level.spelled {len : Nat} {r r' : State × Mem} (h : Level n a b) (hsnug : Snug size a.1 a.2) (hlen : 0 < len)
    (hby : str.EndsBy a.1.outCur len) (hfirst : Spelled size str len a.1 a.2 r) (hsecond : Spelled n str len b.1 b.2 r')
    (hclean : r'.1.overflowed = false) (hroomy : Roomy size r.2.trace) : Level n r r' ∨ Shifted n r r' := by
  have hcur := h.outCur
  have hfits := hfirst.fits hsnug hroomy
  have hcount := hfirst.outCur
  have hcount' := hsecond.outCur
  have hover' := hsecond.overflowed
  rw [hclean, Bool.false_eq, Bool.or_eq_false_iff, decide_eq_false_iff_not] at hover'
  have hle := spaces_le_one str a.1 a.2
  have hby' : str.EndsBy b.1.outCur len := hcur ▸ hby
  by_cases hfar : a.1.outCur + 2 < n
  · have hbelow : ∀ i < a.1.outCur, a.2.out i = b.2.out i := fun i hi => h.out i hi (by omega)
    have hread : (a.2.read str 0).1 = (b.2.read str 0).1 := read_of_below (hby.mono (Nat.le_refl _) hlen) hbelow
    have hspaces := spaces_congr hlen hby hcur hbelow
    refine Or.inl ⟨by omega, fun _ => ?_, fun i hi hend => ?_⟩
    · rw [hfirst.prevName hby (by omega), hsecond.prevName hby' (by omega), hread, ← hspaces, ← hcur, h.prevName (by omega)]
    · exact hfirst.out_congr hsecond hlen hby hcur hbelow (by omega) (by omega) (by omega)
  · have hnone : spaces str b.1 b.2 = 0 ∧ len = 1 ∧ a.1.outCur + 2 = n := by omega
    by_cases hone : spaces str a.1 a.2 = 1
    · refine Or.inr ⟨by omega, by omega, ?_⟩
      have hevent := hfirst.spaced hone
      rw [hsnug.overflowed] at hevent
      rwa [show n - 2 = a.1.outCur by omega]
    · refine Or.inl ⟨by omega, fun hc => by omega, fun i hi hend => ?_⟩
      rw [hfirst.below i (by omega), hsecond.below i (by omega)]
      exact h.out i (by omega) hend

theorem Scant.appended (h : Scant size n a b) (hlength : b.1.overflowed = false → length = length')
    (hstr : b.1.overflowed = false → Level n a b → b.1.outCur + 1 < n → str = str')
    (hby : str.EndsBy a.1.outCur length.toNat)
    (hname : b.1.overflowed = false → (maybeAppendWithLength str length a.1 a.2).1.prevNameLength =
      (maybeAppendWithLength str' length' b.1 b.2).1.prevNameLength)
    (hsnug : Snug size (maybeAppendWithLength str length a.1 a.2).1 (maybeAppendWithLength str length a.1 a.2).2)
    (hfit : Fitting n (maybeAppendWithLength str' length' b.1 b.2).1)
    (hroomy : Roomy size (maybeAppendWithLength str length a.1 a.2).2.trace) :
    Scant size n (maybeAppendWithLength str length a.1 a.2) (maybeAppendWithLength str' length' b.1 b.2) := by
  have hcontrol : (maybeAppendWithLength str length a.1 a.2).1.control =
      (maybeAppendWithLength str' length' b.1 b.2).1.control := by
    rw [(maybeAppendWithLength_outputOnly ..).control, (maybeAppendWithLength_outputOnly ..).control]
    exact h.control
  refine ⟨hsnug, hfit, hcontrol, fun hclean => ?_⟩
  have hover : b.1.overflowed = false := by
    cases hc : b.1.overflowed with
    | true => rwa [maybeAppendWithLength_overflowed h.fitting hc] at hclean
    | false => rfl
  refine ⟨hname hover, ?_⟩
  obtain rfl := hlength hover
  have happend : a.1.append = b.1.append := congrArg Control.append h.control
  by_cases hactive : a.1.append = true ∧ 0 < length
  · have hactive' : b.1.append = true ∧ 0 < length := ⟨happend ▸ hactive.1, hactive.2⟩
    have hfirst := maybeAppendWithLength_spelled h.snug.fitting hactive str a.2
    have hsecond := maybeAppendWithLength_spelled h.fitting hactive' str' b.2
    -- A buffer that is full overflows.
    have hroom : b.1.outCur + 1 < n := by
      have hfits := hsecond.overflowed
      rw [hclean, Bool.false_eq, Bool.or_eq_false_iff, decide_eq_false_iff_not] at hfits
      omega
    rcases (h.clean hover).2 with hlevel | hshifted
    · obtain rfl := hstr hover hlevel hroom
      exact hlevel.spelled h.snug (by omega) hby hfirst hsecond hclean hroomy
    · exact absurd hshifted.1 (Nat.ne_of_lt hroom)
  · have hactive' : ¬ (b.1.append = true ∧ 0 < length) := by rwa [← happend]
    rw [maybeAppendWithLength, maybeAppendWithLength, if_neg hactive, if_neg hactive']
    exact (h.clean hover).2

theorem Scant.text (h : Scant size n a b) (chars : List Char) (hnul : '\x00' ∉ chars)
    (hroomy : Roomy size (maybeAppendWithLength (.text chars) chars.length a.1 a.2).2.trace) :
    Scant size n (maybeAppendWithLength (.text chars) chars.length a.1 a.2)
      (maybeAppendWithLength (.text chars) chars.length b.1 b.2) := by
  refine h.appended (fun _ => rfl) (fun _ _ _ => rfl) trivial (fun hclean => ?_) (h.snug.text chars hnul hroomy)
    (keeps_text chars _ h.fitting).1 hroomy
  have happend : a.1.append = b.1.append := congrArg Control.append h.control
  have hlength := (h.clean hclean).1
  by_cases hactive : a.1.append = true ∧ 0 < (chars.length : Int)
  · have hactive' : b.1.append = true ∧ 0 < (chars.length : Int) := ⟨happend ▸ hactive.1, hactive.2⟩
    rw [text_prevNameLength hactive, text_prevNameLength hactive', hlength]
  · have hactive' : ¬ (b.1.append = true ∧ 0 < (chars.length : Int)) := by rwa [← happend]
    rw [maybeAppendWithLength, maybeAppendWithLength, if_neg hactive, if_neg hactive']
    exact hlength

theorem Scant.replay (h : Scant size n a b) (hroomy : Roomy size (replayName a.1 a.2).2.trace) :
    Scant size n (replayName a.1 a.2) (replayName b.1 b.2) := by
  refine h.appended (fun hclean => (h.clean hclean).1) (fun _ hlevel hroom => congrArg Str.out (hlevel.prevName hroom))
    h.snug.endsBy (fun hclean => ?_) (h.snug.replay hroomy) (keeps_replayName h.fitting).1 hroomy
  have hlength := (h.clean hclean).1
  rwa [← replayName_prevNameLength a.1 a.2, ← replayName_prevNameLength b.1 b.2] at hlength

/-- The separator that is cancelled fits into the smaller buffer, or that one has overflowed. -/
theorem Scant.cancelled {s t : State} {m u m' u' : Mem} (h : Scant size n (s, m) (t, u))
    (h' : Scant size n ((maybeAppendSeparator s m).1, m') ((maybeAppendSeparator t u).1, u'))
    (hgrown : Grown (s, m) ((maybeAppendSeparator s m).1, m')) :
    Scant size n (maybeCancelLastSeparator (maybeAppendSeparator s m).1 m')
      (maybeCancelLastSeparator (maybeAppendSeparator t u).1 u') := by
  have happend : s.append = t.append := congrArg Control.append h.control
  have hnest : s.nestLevel = t.nestLevel := congrArg Control.nestLevel h.control
  by_cases hactive : s.nestLevel ≥ 1 ∧ s.append = true
  · have hactive' : t.nestLevel ≥ 1 ∧ t.append = true := by rwa [← hnest, ← happend]
    have hroom : s.outCur + 2 < size := h.snug.room
    have hcontrol := h'.control
    rw [← (maybeCancelLastSeparator_outputOnly (maybeAppendSeparator s m).1 m').control,
      ← (maybeCancelLastSeparator_outputOnly (maybeAppendSeparator t u).1 u').control] at hcontrol
    refine ⟨(h.snug.cancelled h'.snug hgrown).1, (keeps_maybeCancelLastSeparator (m := u') h'.fitting).1, hcontrol,
      fun hclean => ?_⟩
    have hstate := separator_state (show Fitting n t from h.fitting) hactive' u
    have hover : (maybeAppendSeparator t u).1.overflowed = false := by
      refine Eq.trans ?_ hclean
      unfold maybeCancelLastSeparator
      split <;> rfl
    have hfits := hover
    rw [hstate, Bool.or_eq_false_iff, decide_eq_false_iff_not] at hfits
    obtain ⟨hlength, hkept⟩ := h.clean hfits.1
    have hfull := (h'.clean hover).2
    rw [cancel_separator h.snug.fitting hactive hroom, cancel_separator h.fitting hactive' (Nat.lt_of_not_le hfits.2)]
    refine ⟨hlength, ?_⟩
    rcases hkept with hlevel | ⟨hlast, -⟩
    · have hcur : s.outCur = t.outCur := hlevel.outCur
      have hlonger : (maybeAppendSeparator s m).1.outCur = s.outCur + 2 := by
        rw [separator_state h.snug.fitting hactive]
        exact Nat.min_eq_left (Nat.le_sub_one_of_lt hroom)
      rcases hfull with hlevel' | ⟨-, hfull, -⟩
      · refine Or.inl ⟨hcur, hlevel.prevName, fun i hi hend => ?_⟩
        have hout := hlevel'.out i (by simp only [hlonger]; exact Nat.lt_add_right 2 hi) hend
        simp only at hi hout ⊢
        rw [write_out, write_out, if_neg (by omega), if_neg (by omega)]
        exact hout
      · simp only [hlonger] at hfull
        omega
    · simp only at hlast
      omega
  · have hactive' : ¬ (t.nestLevel ≥ 1 ∧ t.append = true) := by rwa [← hnest, ← happend]
    obtain ⟨hsep, hcancel⟩ := separator_idle hactive m m'
    obtain ⟨hsep', hcancel'⟩ := separator_idle hactive' u u'
    rw [hsep, hsep'] at h' ⊢
    rw [hcancel, hcancel']
    exact h'

theorem lockstep_scant : Lockstep (fun p => KeepsText size p ∧ KeepsFence n p) (Roomy size) (Scant size n) where
  known := congruous_keepsText.and congruous_keepsFence
  separates := separates_keepsText.and separates_keepsFence
  older := Roomy.older
  control h := h.control
  note h _ := by
    refine ⟨⟨h.snug.fitting, h.snug.overflowed, h.snug.room, h.snug.solid, h.snug.below, h.snug.named⟩,
      h.fitting, h.control, fun hclean => ?_⟩
    obtain ⟨hlength, hlevel | ⟨hlast, hfull, hspace⟩⟩ := h.clean hclean
    · exact ⟨hlength, Or.inl ⟨hlevel.outCur, hlevel.prevName, hlevel.out⟩⟩
    · exact ⟨hlength, Or.inr ⟨hlast, hfull, List.mem_cons_of_mem _ hspace⟩⟩
  back hJ hrun hrun' hroomy h h' := by
    obtain ⟨hsuffix, hkeep⟩ := hJ.1 hrun
    obtain ⟨-, hgrown⟩ := hkeep hroomy h.snug
    obtain ⟨-, hfenced⟩ := hJ.2 hrun' h.fitting
    refine ⟨⟨h.snug.fitting, h.snug.overflowed, h.snug.room, fun i hi => ?_, fun i hi => ?_, h.snug.named⟩,
      h.fitting, h.control, fun hclean => ?_⟩
    · have hsolid := h.snug.solid i hi
      rwa [← hgrown.out i hi] at hsolid
    · exact written_of_suffix hsuffix (h.snug.below i hi)
    · obtain ⟨hlength, hlevel | ⟨hlast, hfull, hspace⟩⟩ := h.clean hclean
      · refine ⟨hlength, Or.inl ⟨hlevel.outCur, hlevel.prevName, fun i hi hend => ?_⟩⟩
        have hcur := hlevel.outCur
        have hin := hgrown.out i hi
        have hin' := hfenced.out i (by simp only at hi hcur ⊢; omega)
        simp only at hin hin' ⊢
        rw [hin, hin']
        exact hlevel.out i hi hend
      · exact ⟨hlength, Or.inr ⟨hlast, hfull, hsuffix.subset hspace⟩⟩
  step h c := by
    have hfit := h.snug.fitting
    refine ⟨⟨⟨hfit.outNull, hfit.outEnd, hfit.outCur, hfit.prevName, hfit.prevNameLength⟩, h.snug.overflowed, h.snug.room,
      h.snug.solid, h.snug.below, h.snug.named⟩, ⟨h.fitting.outNull, h.fitting.outEnd, h.fitting.outCur, h.fitting.prevName,
      h.fitting.prevNameLength⟩, rfl, fun hclean => ?_⟩
    obtain ⟨hlength, hlevel | hshifted⟩ := h.clean hclean
    · exact ⟨hlength, Or.inl ⟨hlevel.outCur, hlevel.prevName, hlevel.out⟩⟩
    · exact ⟨hlength, Or.inr hshifted⟩
  text chars hnul := fun _ _ _ _ h hroomy => h.text chars hnul hroomy
  replay := fun _ _ _ _ h hroomy => h.replay hroomy
  separated hJ hrun _ hroomy h h' := by
    have hroomy' := hroomy.older (maybeCancelLastSeparator_outputOnly ..).trace
    exact h.cancelled h' (hJ.1.separated hrun hroomy' h.snug)

end

end Glog.Demangle
