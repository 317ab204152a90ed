import Glog.Demangle.Control

/-! # Two runs of the demangler

Two runs over the same mangled name, with output buffers that differ, go the same way. What relates their states and
their buffers is kept by every parse function, if the output functions keep it and the control fields decide nothing else;
what the first run has done may be assumed to be `good`. -/

namespace Glog.Demangle
open Backtrack Backtrack.Parser

/-- In the second run `p` answers as in the first, and `R` is kept, as long as the record of the first run is `good`. -/
def Mirrors (good : List Event → Prop) (R : State × Mem → State × Mem → Prop) (p : P) : Prop :=
  ∀ ⦃s m b s' m'⦄, p s m = some (b, s', m') → m.trace <:+ m'.trace ∧ (good m'.trace →
    ∀ t u, R (s, m) (t, u) → ∃ t' u', p t u = some (b, t', u') ∧ R (s', m') (t', u'))

/-- An output function that keeps `R`. -/
def Follows (good : List Event → Prop) (R : State × Mem → State × Mem → Prop) (f : State → Mem → State × Mem) : Prop :=
  ∀ ⦃s m t u⦄, R (s, m) (t, u) → good (f s m).2.trace → R (f s m) (f t u)

/-- A relation between two runs that every parse function keeps. -/
structure Simulation (good : List Event → Prop) (R : State × Mem → State × Mem → Prop) : Prop where
  older : ∀ {es fs : List Event}, es <:+ fs → good fs → good es
  control : ∀ {s m t u}, R (s, m) (t, u) → s.control = t.control
  note : ∀ {s m t u}, R (s, m) (t, u) → ∀ f, R (s, noteCall f s m) (t, noteCall f t u)
  /-- A state that is put back, with the buffer of later. -/
  back : ∀ {s m t u s' m' t' u'}, R (s, m) (t, u) → R (s', m') (t', u') → R (s, m') (t, u')
  step : ∀ {s m t u}, R (s, m) (t, u) → ∀ c, R (s.withControl c, m) (t.withControl c, u)
  text : ∀ chars, '\x00' ∉ chars → Follows good R (maybeAppendWithLength (.text chars) chars.length)
  replay : Follows good R replayName
  cancel : Follows good R maybeCancelLastSeparator

/-- The same, where `J` is known of the parsers, and a separator is cancelled only in the state that followed it. -/
structure Lockstep (J : P → Prop) (good : List Event → Prop) (R : State × Mem → State × Mem → Prop) : Prop where
  known : Congruous J
  separates : Separates J
  older : ∀ {es fs : List Event}, es <:+ fs → good fs → good es
  control : ∀ {s m t u}, R (s, m) (t, u) → s.control = t.control
  note : ∀ {s m t u}, R (s, m) (t, u) → ∀ f, R (s, noteCall f s m) (t, noteCall f t u)
  /-- A state that is put back after a run of `p`. -/
  back : ∀ {p s m t u b s' m' t' u'}, J p → p s m = some (b, s', m') → p t u = some (b, t', u') → good m'.trace →
    R (s, m) (t, u) → R (s', m') (t', u') → R (s, m') (t, u')
  step : ∀ {s m t u}, R (s, m) (t, u) → ∀ c, R (s.withControl c, m) (t.withControl c, u)
  text : ∀ chars, '\x00' ∉ chars → Follows good R (maybeAppendWithLength (.text chars) chars.length)
  replay : Follows good R replayName
  /-- A separator that is cancelled after a run of `p`. -/
  separated : ∀ {p s m t u m' u'}, J p →
    p (maybeAppendSeparator s m).1 (maybeAppendSeparator s m).2 = some (false, (maybeAppendSeparator s m).1, m') →
    p (maybeAppendSeparator t u).1 (maybeAppendSeparator t u).2 = some (false, (maybeAppendSeparator t u).1, u') →
    good (maybeCancelLastSeparator (maybeAppendSeparator s m).1 m').2.trace →
    R (s, m) (t, u) → R ((maybeAppendSeparator s m).1, m') ((maybeAppendSeparator t u).1, u') →
    R (maybeCancelLastSeparator (maybeAppendSeparator s m).1 m') (maybeCancelLastSeparator (maybeAppendSeparator t u).1 u')

section
variable {good : List Event → Prop} {R : State × Mem → State × Mem → Prop}

theorem mirrors_act {f : State → Mem → State × Mem} (hf : Follows good R f) (hgrow : ∀ s m, OutputOnly (s, m) (f s m)) :
    Mirrors good R (.act f) := fun s m b s' m' h => by
  obtain ⟨rfl, heq⟩ := act_eq_some h
  have hsuffix := (hgrow s m).trace
  rw [heq] at hsuffix
  refine ⟨hsuffix, fun hgood t u hR => ⟨(f t u).1, (f t u).2, rfl, ?_⟩⟩
  have hnext := hf hR (by rw [heq]; exact hgood)
  rwa [heq] at hnext

/-- Two runs of the loop of `ParsePrefix`, from where the first one is known. -/
theorem separated_of_eq_some {p q r : P} {s s₁ : State} {m m₁ : Mem} {v : Bool}
    (h : p (maybeAppendSeparator s m).1 (maybeAppendSeparator s m).2 = some (v, s₁, m₁)) :
    (Parser.act maybeAppendSeparator &&& Parser.branch p q (Parser.act maybeCancelLastSeparator &&& r)) s m =
      if v then q s₁ m₁ else r (maybeCancelLastSeparator s₁ m₁).1 (maybeCancelLastSeparator s₁ m₁).2 := by
  change Parser.branch p q (Parser.act maybeCancelLastSeparator &&& r) (maybeAppendSeparator s m).1
    (maybeAppendSeparator s m).2 = _
  cases v
  · exact branch_of_false h
  · exact branch_of_true h

namespace Lockstep
variable {J : P → Prop}

protected theorem congruous (hR : Lockstep J good R) : Congruous fun p => J p ∧ Mirrors good R p where
  spent := by
    refine ⟨hR.known.spent, fun _ _ _ _ _ h => ?_⟩
    cases h
  note {f p} hp := by
    refine ⟨hR.known.note hp.1, fun s m b s' m' h => ?_⟩
    obtain ⟨hsuffix, hrun⟩ := hp.2 h
    exact ⟨(List.suffix_cons ..).trans hsuffix, fun hgood t u hinit => hrun hgood t _ (hR.note hinit f)⟩
  branch {p q r} hp hq hr := by
    refine ⟨hR.known.branch hp.1 hq.1 hr.1, fun s m b s' m' h => ?_⟩
    obtain ⟨v, s₁, m₁, h₁, h₂⟩ := branch_eq_some h
    obtain ⟨hsuffix₁, hrun₁⟩ := hp.2 h₁
    have hrest : Mirrors good R (if v then q else r) := by
      cases v
      · exact hr.2
      · exact hq.2
    obtain ⟨hsuffix₂, hrun₂⟩ := hrest h₂
    refine ⟨hsuffix₁.trans hsuffix₂, fun hgood t u hinit => ?_⟩
    obtain ⟨t₁, u₁, hfirst, hR₁⟩ := hrun₁ (hR.older hsuffix₂ hgood) t u hinit
    obtain ⟨t', u', hsecond, hR'⟩ := hrun₂ hgood t₁ u₁ hR₁
    refine ⟨t', u', ?_, hR'⟩
    cases v
    · rw [branch_of_false hfirst]
      exact hsecond
    · rw [branch_of_true hfirst]
      exact hsecond
  choose {p} hp := by
    refine ⟨hR.known.choose fun c => (hp c).1, fun s m b s' m' h => ?_⟩
    obtain ⟨hsuffix, hrun⟩ := (hp s.control).2 h
    refine ⟨hsuffix, fun hgood t u hinit => ?_⟩
    obtain ⟨t', u', hsecond, hR'⟩ := hrun hgood t u hinit
    rw [hR.control hinit] at hsecond
    exact ⟨t', u', hsecond, hR'⟩
  retry {p} hp := by
    refine ⟨hR.known.retry fun c => (hp c).1, fun s m b s' m' h => ?_⟩
    obtain ⟨s₁, h₁, rfl⟩ := retry_eq_some h
    obtain ⟨hsuffix, hrun⟩ := (hp s.control).2 h₁
    refine ⟨hsuffix, fun hgood t u hinit => ?_⟩
    obtain ⟨t₁, u₁, hsecond, hR₁⟩ := hrun hgood t u hinit
    have hback := hR.back (hp s.control).1 h₁ hsecond hgood hinit hR₁
    rw [hR.control hinit] at hsecond
    cases b
    · exact ⟨t, u₁, retry_of_false hsecond, hback⟩
    · exact ⟨t₁, u₁, retry_of_true hsecond, hR₁⟩
  step f := by
    refine ⟨hR.known.step f, fun s m b s' m' h => ?_⟩
    cases h
    refine ⟨List.suffix_refl _, fun _ t u hinit => ⟨t.withControl (f s.control).2, u, ?_, hR.step hinit _⟩⟩
    simp only [hR.control hinit]
  text chars hnul := ⟨hR.known.text chars hnul, mirrors_act (hR.text chars hnul) (maybeAppendWithLength_outputOnly _ _)⟩
  replay := ⟨hR.known.replay, mirrors_act hR.replay replayName_outputOnly⟩

theorem mirrors_separated (hR : Lockstep J good R) : Separates fun p => J p ∧ Mirrors good R p := by
  intro p q r hp hleft hq hr
  refine ⟨hR.separates hp.1 hleft hq.1 hr.1, fun s m b s' m' h => ?_⟩
  obtain ⟨hsuffix₁, hrun₁⟩ := hR.congruous.separator.2 (s := s) (m := m) rfl
  rcases separated_eq_some hleft h with ⟨s₂, m₂, h₁, h₂⟩ | ⟨m₂, h₁, h₂⟩
  · obtain ⟨hsuffix₂, hrun₂⟩ := hp.2 h₁
    obtain ⟨hsuffix₃, hrun₃⟩ := hq.2 h₂
    refine ⟨(hsuffix₁.trans hsuffix₂).trans hsuffix₃, fun hgood t u hinit => ?_⟩
    have hgood₂ := hR.older hsuffix₃ hgood
    obtain ⟨t₁, u₁, hfirst, hR₁⟩ := hrun₁ (hR.older hsuffix₂ hgood₂) t u hinit
    rw [← (act_eq_some hfirst).2] at hR₁
    obtain ⟨t₂, u₂, hsecond, hR₂⟩ := hrun₂ hgood₂ _ _ hR₁
    obtain ⟨t', u', hthird, hR'⟩ := hrun₃ hgood t₂ u₂ hR₂
    exact ⟨t', u', (separated_of_eq_some hsecond).trans hthird, hR'⟩
  · obtain ⟨hsuffix₂, hrun₂⟩ := hp.2 h₁
    obtain ⟨hsuffix₃, hrun₃⟩ := hr.2 h₂
    have hcancel := (maybeCancelLastSeparator_outputOnly (maybeAppendSeparator s m).1 m₂).trace
    refine ⟨((hsuffix₁.trans hsuffix₂).trans hcancel).trans hsuffix₃, fun hgood t u hinit => ?_⟩
    have hgood₃ := hR.older hsuffix₃ hgood
    have hgood₂ := hR.older hcancel hgood₃
    obtain ⟨t₁, u₁, hfirst, hR₁⟩ := hrun₁ (hR.older hsuffix₂ hgood₂) t u hinit
    rw [← (act_eq_some hfirst).2] at hR₁
    obtain ⟨t₂, u₂, hsecond, hR₂⟩ := hrun₂ hgood₂ _ _ hR₁
    have hsame : t₂ = (maybeAppendSeparator t u).1 := hleft hsecond
    subst hsame
    have hR₃ := hR.separated hp.1 h₁ hsecond hgood₃ hinit hR₂
    obtain ⟨t', u', hthird, hR'⟩ := hrun₃ hgood _ _ hR₃
    exact ⟨t', u', (separated_of_eq_some hsecond).trans hthird, hR'⟩

protected theorem mirrors (hR : Lockstep J good R) (mangled : CString) (f : Func) : Mirrors good R (parse mangled f) :=
  (hR.congruous.parse hR.mirrors_separated mangled f).2

end Lockstep

theorem Simulation.lockstep (hR : Simulation good R) : Lockstep (fun _ => True) good R where
  known := ⟨trivial, fun _ => trivial, fun _ _ _ => trivial, fun _ => trivial, fun _ => trivial, fun _ => trivial,
    fun _ _ => trivial, trivial⟩
  separates _ _ _ _ _ _ _ := trivial
  older := hR.older
  control := hR.control
  note := hR.note
  back _ _ _ _ := hR.back
  step := hR.step
  text := hR.text
  replay := hR.replay
  separated _ _ _ hgood _ h := hR.cancel h hgood

/-- Runs of the demangler on buffers that are related. -/
theorem Lockstep.parseTopLevel {J : P → Prop} (hR : Lockstep J good R) {mangled : CString} {out out' : Option (Nat → Char)}
    {outSize outSize' : Nat} (hgood : good (parseTopLevel mangled out outSize).2.2.trace)
    (hinit : R (initState out outSize, initMem out) (initState out' outSize', initMem out')) :
    (parseTopLevel mangled out' outSize').1 = (parseTopLevel mangled out outSize).1 ∧
    R (parseTopLevel mangled out outSize).2 (parseTopLevel mangled out' outSize').2 := by
  obtain ⟨t', u', hrun, hR'⟩ :=
    (hR.mirrors mangled .topLevelMangledName (parseTopLevel_eq_some out outSize)).2 hgood _ _ hinit
  rw [parseTopLevel_eq_some, Option.some_inj] at hrun
  rw [hrun]
  exact ⟨rfl, hR'⟩

end

end Glog.Demangle
