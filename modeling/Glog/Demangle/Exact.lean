import Glog.Demangle.Scant

/-! # How large a buffer the demangler needs

The demangler asks for more than its result takes where it appends a separator behind the end of the result and cancels it
again: the separator needs room for a while. Where no separator reached behind that end, the demangler succeeds exactly
with a buffer that holds the result and its terminator. -/

namespace Glog.Demangle
open Backtrack Backtrack.Parser

/-- Where the demangler succeeds with some buffer, it succeeds exactly with the buffers that hold its result, and has
the same result in all of them. -/
def ExactSize (mangled : CString) : Prop := ∀ (out : Nat → Char) (size : Nat) (text : List Char),
  (demangle mangled (some out) size).1 = true → cString size (demangle mangled (some out) size).2 = some text →
  ∀ n ≥ 1, ∀ out' : Nat → Char, ((demangle mangled (some out') n).1 = true ↔ text.length + 1 ≤ n) ∧
    (text.length + 1 ≤ n → cString n (demangle mangled (some out') n).2 = some text)

/-- A run with room for all of its output ends with a terminator, and no separator that was cancelled reached behind it. A
    separator may have ended there, if no space was appended before the last character. -/
structure Settles (size : Nat) (r : State × Mem) : Prop where
  room : 3 ≤ size
  roomy : Roomy size r.2.trace
  ended : endsAt size r.2.trace r.1.outCur = true
  cancels : CancelsBy r.1.outCur r.2.trace
  spaced : .cancel r.1.outCur ∈ r.2.trace → .append (.text [' ']) 1 (r.1.outCur - 2) false ∉ r.2.trace

section
variable {mangled : CString} {size n : Nat} {out out' : Nat → Char}

/-! ### The verdict -/

/-- Two runs that are at the same point. -/
def SameControl (a b : State × Mem) : Prop := a.1.control = b.1.control

theorem follows_sameControl {f : State → Mem → State × Mem} (hf : ∀ s m, OutputOnly (s, m) (f s m)) :
    Follows (fun _ => True) SameControl f := fun s m t u h _ => by
  have hsame : s.control = t.control := h
  unfold SameControl
  rw [(hf s m).control, (hf t u).control]
  exact hsame

theorem simulation_sameControl : Simulation (fun _ => True) SameControl where
  older _ _ := trivial
  control h := h
  note h _ := h
  back h _ := h
  step _ _ := rfl
  text _ _ := follows_sameControl (maybeAppendWithLength_outputOnly _ _)
  replay := follows_sameControl replayName_outputOnly
  cancel := follows_sameControl maybeCancelLastSeparator_outputOnly

/-- Whether a name is accepted does not depend on the buffer. -/
theorem parseTopLevel_verdict (mangled : CString) (out out' : Option (Nat → Char)) (size n : Nat) :
    (parseTopLevel mangled out' n).1 = (parseTopLevel mangled out size).1 := by
  have hinit : SameControl (initState out size, initMem out) (initState out' n, initMem out') := rfl
  exact (simulation_sameControl.lockstep.parseTopLevel trivial hinit).1

/-! ### Both kinds of buffers -/

theorem fitting_init (hn : 1 ≤ n) : Fitting n (initState (some out) n) :=
  ⟨rfl, rfl, hn, nofun, fun _ => Int.negSucc_le_zero 0⟩

theorem snug_init (hsize : 3 ≤ size) : Snug size (initState (some out) size) (initMem (some out)) :=
  ⟨fitting_init (by omega), rfl, (by simpa [initState] using hsize), nofun, nofun, nofun⟩

theorem ample_init (hsize : 3 ≤ size) (hn : 1 ≤ n) (out out' : Nat → Char) :
    Ample size n (initState (some out) size, initMem (some out)) (initState (some out') n, initMem (some out')) :=
  ⟨snug_init hsize, fitting_init hn, rfl, nofun, nofun, fun _ => ⟨rfl, rfl, rfl⟩, nofun⟩

theorem scant_init (hsize : 3 ≤ size) (hn : 1 ≤ n) (out out' : Nat → Char) :
    Scant size n (initState (some out) size, initMem (some out)) (initState (some out') n, initMem (some out')) :=
  ⟨snug_init hsize, fitting_init hn, rfl, fun _ => ⟨rfl, Or.inl ⟨rfl, fun _ => rfl, nofun⟩⟩⟩

theorem CancelsBy.mono {e e' : Nat} {trace : List Event} (h : CancelsBy e trace) (he : e ≤ e') : CancelsBy e' trace :=
  fun ev hev => by
    have hby := h ev hev
    cases ev with
    | cancel outCur => exact decide_eq_true (Nat.le_trans (of_decide_eq_true hby) he)
    | _ => rfl

theorem cString_of_first {f : Nat → Char} {e : Nat} (he : e < n) (hbefore : ∀ i < e, f i ≠ '\x00') (hend : f e = '\x00') :
    cString n f = some ((List.range e).map f) := by
  have hfind : (List.range n).find? (fun i => f i == '\x00') = some e := by
    refine List.find?_range_eq_some.mpr ⟨by rw [hend]; rfl, List.mem_range.mpr he, fun i hi => ?_⟩
    rw [Bool.not_eq_true', beq_eq_false_iff_ne]
    exact hbefore i hi
  rw [cString, hfind, Option.map_some]

/-! ### The result -/

/-- The text that a run with room ends with. -/
def finalText (r : State × Mem) : List Char := (List.range r.1.outCur).map r.2.out

/-- What is known of the end of a run with room. -/
theorem Settles.final (h : Settles size (parseTopLevel mangled (some out) size).2) :
    Snug size (parseTopLevel mangled (some out) size).2.1 (parseTopLevel mangled (some out) size).2.2 ∧
    written (parseTopLevel mangled (some out) size).2.2.trace (parseTopLevel mangled (some out) size).2.1.outCur = true ∧
    (parseTopLevel mangled (some out) size).2.2.out (parseTopLevel mangled (some out) size).2.1.outCur = '\x00' := by
  obtain ⟨htracks, -⟩ := sound_parseTopLevel mangled out size (Nat.le_trans (by decide) h.room)
  have hsnug := ((congruous_keepsText.parse separates_keepsText mangled _ (parseTopLevel_eq_some (some out) size)).2 h.roomy
    (snug_init h.room)).1
  exact ⟨hsnug, htracks.ended _ h.ended⟩

/-- The result and its terminator fit. -/
theorem Settles.demangle_of_lt (h : Settles size (parseTopLevel mangled (some out) size).2)
    (haccepts : (parseTopLevel mangled (some out) size).1 = true)
    (hn : (parseTopLevel mangled (some out) size).2.1.outCur < n) (out' : Nat → Char) :
    (demangle mangled (some out') n).1 = true ∧
    cString n (demangle mangled (some out') n).2 = some (finalText (parseTopLevel mangled (some out) size).2) := by
  obtain ⟨hsnug, hmark, hend⟩ := h.final
  obtain ⟨hverdict, hample⟩ := lockstep_ample.parseTopLevel ⟨h.roomy, h.cancels.mono (Nat.le_sub_one_of_lt hn)⟩
    (ample_init h.room (Nat.one_le_of_lt hn) out out')
  unfold demangle finalText
  generalize parseTopLevel mangled (some out) size = r at hsnug hmark hend haccepts hn hverdict hample ⊢
  generalize parseTopLevel mangled (some out') n = r' at hverdict hample ⊢
  have hclean : r'.2.1.overflowed = false := by
    cases hover : r'.2.1.overflowed with
    | true =>
      have hbehind := (hample.late hover).1
      omega
    | false => rfl
  have hsame : ∀ i < r.2.1.outCur, r.2.2.out i = r'.2.2.out i := fun i hi => hample.out i (by omega) (hsnug.below i hi)
  have hlast : r'.2.2.out r.2.1.outCur = '\x00' := by
    by_cases hroom : r.2.1.outCur + 1 < n
    · rw [← hample.out _ hroom hmark]
      exact hend
    · have heq : n - 1 = r.2.1.outCur := by omega
      have hnul := hample.last
      rw [heq] at hnul
      exact hnul hmark hend
  have hresult := cString_of_first (f := r'.2.2.out) hn (fun i hi => by
    rw [← hsame i hi]
    exact hsnug.solid i hi) hlast
  refine ⟨?_, ?_⟩
  · dsimp only
    rw [hverdict, haccepts, hclean]
    rfl
  · dsimp only
    rw [hresult, Option.some_inj]
    exact List.map_congr_left fun i hi => (hsame i (List.mem_range.mp hi)).symm

/-- The result and its terminator do not fit. -/
theorem Settles.not_demangle_of_le (h : Settles size (parseTopLevel mangled (some out) size).2)
    (hpos : 1 ≤ n) (hn : n ≤ (parseTopLevel mangled (some out) size).2.1.outCur) (out' : Nat → Char) :
    (demangle mangled (some out') n).1 = false := by
  obtain ⟨-, hscant⟩ := lockstep_scant.parseTopLevel h.roomy (scant_init h.room hpos out out')
  have hample := fun hcancels => (lockstep_ample.parseTopLevel ⟨h.roomy, hcancels⟩ (ample_init h.room hpos out out')).2
  cases hover : (parseTopLevel mangled (some out') n).2.1.overflowed with
  | true =>
    unfold demangle
    dsimp only
    rw [hover, Bool.not_true, Bool.and_false]
  | false =>
    have hroom := hscant.fitting.outCur
    rcases (hscant.clean hover).2 with hlevel | ⟨hlast, hfull, hspace⟩
    · have hcur := hlevel.outCur
      omega
    · -- No separator ended where the result does, so that the buffer was ample for all of them.
      have hnone :
          .cancel (parseTopLevel mangled (some out) size).2.1.outCur ∉ (parseTopLevel mangled (some out) size).2.2.trace :=
        fun hmem => h.spaced hmem (by rwa [hfull])
      have hcancels : CancelsBy (n - 1) (parseTopLevel mangled (some out) size).2.2.trace := fun ev hev => by
        have hby := h.cancels ev hev
        cases ev with
        | cancel outCur =>
          have hle : outCur ≤ (parseTopLevel mangled (some out) size).2.1.outCur := of_decide_eq_true hby
          have hne : outCur ≠ (parseTopLevel mangled (some out) size).2.1.outCur := fun heq => hnone (heq ▸ hev)
          exact decide_eq_true (by omega)
        | _ => rfl
      have hcur := ((hample hcancels).clean hover).1
      omega

end

/-- Where a run with room settles, the demangler needs a buffer for its result and the terminator, and no more. -/
theorem exactSize_of_settles (mangled : CString) (out : Nat → Char) (size : Nat)
    (h : (parseTopLevel mangled (some out) size).1 = true → Settles size (parseTopLevel mangled (some out) size).2) :
    ExactSize mangled := by
  intro out₀ size₀ text hsuccess htext n hn out'
  have haccepts : (parseTopLevel mangled (some out) size).1 = true := by
    unfold demangle at hsuccess
    rw [Bool.and_eq_true] at hsuccess
    rw [← hsuccess.1]
    exact parseTopLevel_verdict mangled (some out₀) (some out) size₀ size
  have hsettles := h haccepts
  have hpos : 1 ≤ size₀ := by
    obtain ⟨i, hi, -⟩ := nul_of_cString htext
    exact Nat.one_le_of_lt hi
  have hlt : (parseTopLevel mangled (some out) size).2.1.outCur < size₀ := Nat.lt_of_not_le fun hle => by
    rw [hsettles.not_demangle_of_le hpos hle] at hsuccess
    cases hsuccess
  obtain ⟨-, hresult⟩ := hsettles.demangle_of_lt haccepts hlt out₀
  obtain rfl : finalText (parseTopLevel mangled (some out) size).2 = text := by
    rw [hresult, Option.some_inj] at htext
    exact htext
  have hlength : (finalText (parseTopLevel mangled (some out) size).2).length =
      (parseTopLevel mangled (some out) size).2.1.outCur := by
    rw [finalText, List.length_map, List.length_range]
  rw [hlength]
  by_cases hfits : (parseTopLevel mangled (some out) size).2.1.outCur < n
  · obtain ⟨hsucceeds, hsame⟩ := hsettles.demangle_of_lt haccepts hfits out'
    exact ⟨iff_of_true hsucceeds hfits, fun _ => hsame⟩
  · have hfails := hsettles.not_demangle_of_le hn (Nat.le_of_not_lt hfits) out'
    refine ⟨iff_of_false (by rw [hfails]; exact Bool.false_ne_true) hfits, fun hc => absurd hc hfits⟩

/-- The separator of `a::` ends where `a()` does. -/
theorem exactSize_of_settles_nested : ExactSize ⟨"_ZN1aEv".toList, by decide⟩ :=
  exactSize_of_settles ⟨"_ZN1aEv".toList, by decide⟩ (fun _ => 'x') 8 fun _ =>
    ⟨by decide, by decide +kernel, by decide +kernel, by decide +kernel, by decide +kernel⟩

/-- The separator of `a::` ends behind `a`, and a buffer of two bytes is too small. -/
theorem not_exactSize : ¬ ∀ mangled : CString, ExactSize mangled := fun h => by
  have hsize := (h ⟨"_ZN1aE".toList, by decide⟩ (fun _ => 'x') 8 ['a'] (by decide +kernel) (by decide +kernel) 2 (by decide)
    fun _ => 'x').1
  revert hsize
  decide +kernel

end Glog.Demangle
