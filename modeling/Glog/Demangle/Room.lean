import Glog.Demangle.Extent

/-! # The demangler with room for all of its output

With room for every text that is appended, nothing overflows: the text before the cursor is what was appended, and a
cancelled separator leads back to where it was appended. In a smaller buffer the last three bytes may be lost. -/

namespace Glog.Demangle
open Backtrack Backtrack.Parser

/-- Whether an `Append` leaves room for two characters and the terminator. -/
def Event.roomy (n : Nat) : Event → Bool
  | .append _ length outCur _ => outCur + length + 3 ≤ n
  | _ => true

/-- There is room for every text that is appended. -/
def Roomy (n : Nat) (trace : List Event) : Prop := ∀ e ∈ trace, e.roomy n = true

instance (n : Nat) (trace : List Event) : Decidable (Roomy n trace) :=
  inferInstanceAs (Decidable (∀ e ∈ trace, e.roomy n = true))

/-- The states and buffers of a run that has room. -/
structure Snug (n : Nat) (s : State) (m : Mem) : Prop where
  fitting : Fitting n s
  overflowed : s.overflowed = false
  room : s.outCur + 3 ≤ n
  solid : ∀ i < s.outCur, m.out i ≠ '\x00'
  below : ∀ i < s.outCur, written m.trace i = true
  named : ∀ p, s.prevName = some p → p + s.prevNameLength.toNat ≤ s.outCur

/-- The text before the cursor stays. -/
structure Grown (a b : State × Mem) : Prop where
  outCur : a.1.outCur ≤ b.1.outCur
  out : ∀ i < a.1.outCur, b.2.out i = a.2.out i

/-- The same up to the last three bytes of the buffer. -/
structure Fenced (n : Nat) (a b : State × Mem) : Prop where
  outCur : min a.1.outCur (n - 3) ≤ b.1.outCur
  out : ∀ i < min a.1.outCur (n - 3), b.2.out i = a.2.out i

section
variable {n : Nat} {a b c : State × Mem} {s s₁ : State} {m m₁ m₂ : Mem} {str : Str} {length : Int} {es fs : List Event}

theorem Roomy.older (h : es <:+ fs) (hfs : Roomy n fs) : Roomy n es := fun e he => hfs e (h.subset he)

theorem Grown.refl (a : State × Mem) : Grown a a := ⟨Nat.le_refl _, fun _ _ => rfl⟩

theorem Grown.trans (h₁ : Grown a b) (h₂ : Grown b c) : Grown a c where
  outCur := Nat.le_trans h₁.outCur h₂.outCur
  out i hi := (h₂.out i (Nat.lt_of_lt_of_le hi h₁.outCur)).trans (h₁.out i hi)

theorem Fenced.refl (a : State × Mem) : Fenced n a a := ⟨Nat.min_le_left .., fun _ _ => rfl⟩

theorem Fenced.trans (h₁ : Fenced n a b) (h₂ : Fenced n b c) : Fenced n a c := by
  have hle := h₁.outCur
  refine ⟨?_, fun i hi => ?_⟩
  · have := h₂.outCur
    omega
  · rw [h₂.out i (by omega), h₁.out i hi]

theorem Grown.fenced (h : Grown a b) : Fenced n a b where
  outCur := Nat.le_trans (Nat.min_le_left ..) h.outCur
  out i hi := h.out i (by omega)

/-! ### The output functions -/

theorem Spelled.grown {len : Nat} {r : State × Mem} (h : Spelled n str len s m r) (hcur : s.outCur < n) :
    Grown (s, m) r where
  outCur := by
    rw [h.outCur]
    simp only
    omega
  out := h.below

/-- Appending only adds to the text. -/
theorem maybeAppendWithLength_grown (h : Fitting n s) (str : Str) (length : Int) (m : Mem) :
    Grown (s, m) (maybeAppendWithLength str length s m) := by
  by_cases hactive : s.append = true ∧ 0 < length
  · exact (maybeAppendWithLength_spelled h hactive str m).grown h.outCur
  · rw [maybeAppendWithLength, if_neg hactive]
    exact .refl _

/-- Text is appended whole, where there is room. -/
theorem Spelled.fits {len : Nat} {r : State × Mem} (h : Spelled n str len s m r) (hs : Snug n s m)
    (hroomy : Roomy n r.2.trace) :
    s.outCur + spaces str s m + len + 3 ≤ n := by
  have hle := spaces_le_one str s m
  have hroom := hs.room
  obtain ⟨o, hevent⟩ := h.appended
  have hfits := hroomy _ hevent
  simp only [Event.roomy, decide_eq_true_eq] at hfits
  omega

theorem Snug.appended (h : Snug n s m) (hby : str.EndsBy s.outCur length.toNat)
    (hchars : ∀ q < length.toNat, (m.read str q).1 ≠ '\x00') (hfit : Fitting n (maybeAppendWithLength str length s m).1)
    (hroomy : Roomy n (maybeAppendWithLength str length s m).2.trace) :
    Snug n (maybeAppendWithLength str length s m).1 (maybeAppendWithLength str length s m).2 := by
  by_cases hactive : s.append = true ∧ 0 < length
  · have hspelled := maybeAppendWithLength_spelled h.fitting hactive str m
    have hfits := hspelled.fits h hroomy
    have hle := spaces_le_one str s m
    have hgrow := (maybeAppendWithLength_outputOnly str length s m).trace
    generalize maybeAppendWithLength str length s m = r at hspelled hfit hgrow ⊢
    have hcur : r.1.outCur = s.outCur + spaces str s m + length.toNat := by
      rw [hspelled.outCur]
      omega
    refine ⟨hfit, ?_, by omega, fun i hi => ?_, fun i hi => ?_, fun p hp => ?_⟩
    · rw [hspelled.overflowed, h.overflowed, decide_eq_false (by omega)]
      rfl
    · by_cases hold : i < s.outCur
      · rw [hspelled.below i hold]
        exact h.solid i hold
      · by_cases hspace : i < s.outCur + spaces str s m
        · have hi' : i = s.outCur := by omega
          rw [hi', hspelled.space (by omega) (by omega)]
          decide
        · obtain ⟨q, rfl⟩ := Nat.exists_eq_add_of_le (Nat.le_of_not_lt hspace)
          rw [hspelled.text hby q (by omega) (by omega)]
          exact hchars q (by omega)
    · by_cases hold : i < s.outCur
      · exact written_of_suffix hgrow (h.below i hold)
      · exact hspelled.marked i (by omega) hi
    · rw [hspelled.prevName hby (by omega)] at hp
      rw [hspelled.prevNameLength hby, hcur]
      split at hp
      · rename_i hname
        rw [if_pos hname]
        cases hp
        simp
      · rename_i hname
        rw [if_neg hname]
        have := h.named p hp
        omega
  · rw [maybeAppendWithLength, if_neg hactive]
    exact h

theorem Snug.text (h : Snug n s m) (chars : List Char) (hnul : '\x00' ∉ chars)
    (hroomy : Roomy n (maybeAppendWithLength (.text chars) chars.length s m).2.trace) :
    Snug n (maybeAppendWithLength (.text chars) chars.length s m).1
      (maybeAppendWithLength (.text chars) chars.length s m).2 := by
  refine h.appended trivial (fun q hq => ?_) (keeps_text chars _ h.fitting).1 hroomy
  rw [Int.toNat_natCast] at hq
  change chars.getD q '\x00' ≠ '\x00'
  rw [List.getD_eq_getElem?_getD, List.getElem?_eq_getElem hq]
  exact fun heq => hnul (heq ▸ List.getElem_mem hq)

theorem Snug.replay (h : Snug n s m) (hroomy : Roomy n (replayName s m).2.trace) :
    Snug n (replayName s m).1 (replayName s m).2 := by
  have hfit := (keeps_replayName (m := m) h.fitting).1
  cases hname : s.prevName with
  | none =>
    have hlength := h.fitting.prevNameLength hname
    rw [replayName, maybeAppendWithLength, if_neg (by omega)]
    exact h
  | some start =>
    have hle := h.named start hname
    unfold replayName at hfit hroomy ⊢
    rw [hname] at hfit hroomy ⊢
    exact h.appended hle (fun q hq => h.solid (start + q) (by omega)) hfit hroomy

/-! ### Separators -/

theorem separator_idle (h : ¬ (s.nestLevel ≥ 1 ∧ s.append = true)) (m m₂ : Mem) :
    maybeAppendSeparator s m = (s, m) ∧ maybeCancelLastSeparator s m₂ = (s, m₂) := by
  refine ⟨?_, if_neg fun hc => h ⟨hc.1, hc.2.1⟩⟩
  unfold maybeAppendSeparator
  split
  · rename_i hnest
    exact if_neg fun hon => h ⟨hnest, hon⟩
  · rfl

theorem separator_active (h : s.nestLevel ≥ 1 ∧ s.append = true) (m : Mem) :
    maybeAppendSeparator s m = maybeAppendWithLength (.text "::".toList) 2 s m := by
  rw [maybeAppendSeparator, if_pos h.1, maybeAppend, if_pos h.2]
  rfl

theorem separator_state (hs : Fitting n s) (h : s.nestLevel ≥ 1 ∧ s.append = true) (m : Mem) :
    (maybeAppendSeparator s m).1 =
      { s with outCur := min (s.outCur + 2) (n - 1), overflowed := s.overflowed || decide (n ≤ s.outCur + 2) } := by
  have hspelled := maybeAppendWithLength_spelled hs (show s.append = true ∧ 0 < (2 : Int) from ⟨h.2, by decide⟩)
    (.text "::".toList) m
  have hsame := maybeAppendWithLength_outputOnly (.text "::".toList) 2 s m
  have hspaces : spaces (.text "::".toList) s m = 0 := if_neg fun hc => absurd hc.1 (show ':' ≠ '<' by decide)
  rw [separator_active h]
  have hcount := hspelled.outCur
  have hover := hspelled.overflowed
  have hname := hspelled.prevName trivial (by rw [hspaces]; exact hs.outCur)
  have hlength := hspelled.prevNameLength trivial
  rw [hspaces] at hcount hover
  have hcolon : (isAlpha (m.read (.text "::".toList) 0).1 || (m.read (.text "::".toList) 0).1 == '_') = false := by
    change (isAlpha ':' || ':' == '_') = false
    decide
  rw [hcolon, if_neg Bool.false_ne_true] at hname hlength
  generalize maybeAppendWithLength (.text "::".toList) 2 s m = r at hsame hcount hover hname hlength
  obtain ⟨t, u⟩ := r
  cases t
  obtain ⟨h₁, h₂, h₃, h₄, h₅, h₆, h₇, h₈, -⟩ := hsame
  simp only at h₁ h₂ h₃ h₄ h₅ h₆ h₇ h₈ hcount hover hname hlength
  subst h₁ h₂ h₃ h₄ h₅ h₆ h₇ h₈ hcount hover hname hlength
  rfl

/-- A separator that fits is cancelled where it was appended. -/
theorem cancel_separator (hs : Fitting n s) (h : s.nestLevel ≥ 1 ∧ s.append = true) (hroom : s.outCur + 2 < n)
    (m m₂ : Mem) :
    maybeCancelLastSeparator (maybeAppendSeparator s m).1 m₂ =
      (s, (m₂.note (.cancel (s.outCur + 2))).write s.outCur '\x00') := by
  have hcur : min (s.outCur + 2) (n - 1) = s.outCur + 2 := by omega
  rw [separator_state hs h, hcur, decide_eq_false (by omega), Bool.or_false, maybeCancelLastSeparator,
    if_pos ⟨h.1, h.2, Or.inr (Nat.le_add_left ..)⟩]
  rfl

/-- With room, the state in which a separator is cancelled is the one before it. -/
theorem Snug.cancelled (h : Snug n s m) (h₁ : Snug n (maybeAppendSeparator s m).1 m₂)
    (hgrown : Grown (s, m) ((maybeAppendSeparator s m).1, m₂)) :
    Snug n (maybeCancelLastSeparator (maybeAppendSeparator s m).1 m₂).1
      (maybeCancelLastSeparator (maybeAppendSeparator s m).1 m₂).2 ∧
    Grown (s, m) (maybeCancelLastSeparator (maybeAppendSeparator s m).1 m₂) := by
  have hroom := h.room
  by_cases hactive : s.nestLevel ≥ 1 ∧ s.append = true
  · rw [cancel_separator h.fitting hactive (by omega)]
    have hout : ∀ i < s.outCur, ((m₂.note (.cancel (s.outCur + 2))).write s.outCur '\x00').out i = m.out i := fun i hi => by
      rw [write_out, if_neg (by omega)]
      exact hgrown.out i hi
    refine ⟨⟨h.fitting, h.overflowed, hroom, fun i hi => ?_, fun i hi => ?_, h.named⟩, Nat.le_refl _, hout⟩
    · rw [hout i hi]
      exact h.solid i hi
    · have hbelow := h₁.below i (Nat.lt_of_lt_of_le hi hgrown.outCur)
      exact written_of_suffix ⟨[.write s.outCur '\x00', .cancel (s.outCur + 2)], rfl⟩ hbelow
  · obtain ⟨hsep, hcancel⟩ := separator_idle hactive m m₂
    rw [hsep] at h₁ hgrown ⊢
    rw [hcancel]
    exact ⟨h₁, hgrown⟩

theorem Fenced.cancelled (hs : Fitting n s) (h₁ : Fitting n (maybeAppendSeparator s m).1)
    (hfenced : Fenced n (s, m) ((maybeAppendSeparator s m).1, m₂)) :
    Fitting n (maybeCancelLastSeparator (maybeAppendSeparator s m).1 m₂).1 ∧
    Fenced n (s, m) (maybeCancelLastSeparator (maybeAppendSeparator s m).1 m₂) := by
  refine ⟨(keeps_maybeCancelLastSeparator (m := m₂) h₁).1, ?_⟩
  have hcur := hs.outCur
  by_cases hactive : s.nestLevel ≥ 1 ∧ s.append = true
  · have hout := hfenced.out
    have hle := hfenced.outCur
    rw [separator_state hs hactive] at hle ⊢
    unfold maybeCancelLastSeparator
    split
    · refine ⟨?_, fun i hi => ?_⟩
      · simp only at hle ⊢
        omega
      · simp only at hi
        rw [write_out, if_neg (by simp only; omega)]
        exact hout i hi
    · exact ⟨hle, hout⟩
  · obtain ⟨hsep, hcancel⟩ := separator_idle hactive m m₂
    rw [hsep] at hfenced ⊢
    rw [hcancel]
    exact hfenced

/-! ### Runs -/

/-- A parser that leaves the text before the cursor alone, the last three bytes of the buffer aside. -/
def KeepsFence (n : Nat) (p : P) : Prop := ∀ ⦃s m b s' m'⦄, p s m = some (b, s', m') →
  Fitting n s → Fitting n s' ∧ Fenced n (s, m) (s', m')

/-- A parser that keeps the text, where there is room. -/
def KeepsText (n : Nat) (p : P) : Prop := ∀ ⦃s m b s' m'⦄, p s m = some (b, s', m') →
  m.trace <:+ m'.trace ∧ (Roomy n m'.trace → Snug n s m → Snug n s' m' ∧ Grown (s, m) (s', m'))

theorem keepsFence_act {f : State → Mem → State × Mem}
    (hf : ∀ s m, Fitting n s → Fitting n (f s m).1 ∧ Fenced n (s, m) (f s m)) :
    KeepsFence n (.act f) := fun s m b s' m' h => by
  obtain ⟨-, heq⟩ := act_eq_some h
  have hnext := hf s m
  rwa [heq] at hnext

theorem congruous_keepsFence : Congruous (KeepsFence n) where
  spent := fun _ _ _ _ _ h => by cases h
  note hp _ _ _ _ _ h hs := by
    obtain ⟨hs', hfenced⟩ := hp h hs
    exact ⟨hs', hfenced.outCur, hfenced.out⟩
  branch {p q r} hp hq hr s m b s' m' h hs := by
    obtain ⟨v, s₁, m₁, h₁, h₂⟩ := branch_eq_some h
    obtain ⟨hs₁, hfenced₁⟩ := hp h₁ hs
    have hrest : Fitting n s' ∧ Fenced n (s₁, m₁) (s', m') := by
      cases v
      · exact hr h₂ hs₁
      · exact hq h₂ hs₁
    exact ⟨hrest.1, hfenced₁.trans hrest.2⟩
  choose hp s _ _ _ _ h := hp s.control h
  retry {p} hp s m b s' m' h hs := by
    obtain ⟨s₁, h₁, rfl⟩ := retry_eq_some h
    obtain ⟨hs₁, hfenced⟩ := hp s.control h₁ hs
    cases b
    · exact ⟨hs, Nat.min_le_left .., hfenced.out⟩
    · exact ⟨hs₁, hfenced⟩
  step f s m b s' m' h hs := by
    cases h
    exact ⟨⟨hs.outNull, hs.outEnd, hs.outCur, hs.prevName, hs.prevNameLength⟩, Nat.min_le_left .., fun _ _ => rfl⟩
  text chars _ := keepsFence_act fun s m hs => ⟨(keeps_text chars _ hs).1, (maybeAppendWithLength_grown hs ..).fenced⟩
  replay := keepsFence_act fun s m hs => ⟨(keeps_replayName hs).1, (maybeAppendWithLength_grown hs ..).fenced⟩

theorem separates_keepsFence : Separates (KeepsFence n) := fun p q r hp hleft hq hr s m b s' m' h hs => by
  obtain ⟨hs₁, hfenced₁⟩ := congruous_keepsFence.separator (s := s) (m := m) rfl hs
  rcases separated_eq_some hleft h with ⟨s₂, m₂, h₁, h₂⟩ | ⟨m₂, h₁, h₂⟩
  · obtain ⟨hs₂, hfenced₂⟩ := hp h₁ hs₁
    obtain ⟨hs', hfenced⟩ := hq h₂ hs₂
    exact ⟨hs', (hfenced₁.trans hfenced₂).trans hfenced⟩
  · obtain ⟨-, hfenced₂⟩ := hp h₁ hs₁
    obtain ⟨hs₃, hfenced₃⟩ := Fenced.cancelled hs hs₁ (hfenced₁.trans hfenced₂)
    obtain ⟨hs', hfenced⟩ := hr h₂ hs₃
    exact ⟨hs', hfenced₃.trans hfenced⟩

theorem keepsText_act {f : State → Mem → State × Mem} (hgrow : ∀ s m, OutputOnly (s, m) (f s m))
    (hf : ∀ s m, Roomy n (f s m).2.trace → Snug n s m → Snug n (f s m).1 (f s m).2 ∧ Grown (s, m) (f s m)) :
    KeepsText n (.act f) := fun s m b s' m' h => by
  obtain ⟨-, heq⟩ := act_eq_some h
  have hsuffix := (hgrow s m).trace
  have hnext := hf s m
  rw [heq] at hsuffix hnext
  exact ⟨hsuffix, hnext⟩

theorem congruous_keepsText : Congruous (KeepsText n) where
  spent := fun _ _ _ _ _ h => by cases h
  note {f p} hp s m b s' m' h := by
    obtain ⟨hsuffix, hrun⟩ := hp h
    refine ⟨(List.suffix_cons ..).trans hsuffix, fun hroomy hs => ?_⟩
    obtain ⟨hs', hgrown⟩ := hrun hroomy ⟨hs.fitting, hs.overflowed, hs.room, hs.solid, hs.below, hs.named⟩
    exact ⟨hs', hgrown.outCur, hgrown.out⟩
  branch {p q r} hp hq hr s m b s' m' h := by
    obtain ⟨v, s₁, m₁, h₁, h₂⟩ := branch_eq_some h
    obtain ⟨hsuffix₁, hrun₁⟩ := hp h₁
    obtain ⟨hsuffix₂, hrun₂⟩ : m₁.trace <:+ m'.trace ∧
        (Roomy n m'.trace → Snug n s₁ m₁ → Snug n s' m' ∧ Grown (s₁, m₁) (s', m')) := by
      cases v
      · exact hr h₂
      · exact hq h₂
    refine ⟨hsuffix₁.trans hsuffix₂, fun hroomy hs => ?_⟩
    obtain ⟨hs₁, hgrown₁⟩ := hrun₁ (hroomy.older hsuffix₂) hs
    obtain ⟨hs', hgrown₂⟩ := hrun₂ hroomy hs₁
    exact ⟨hs', hgrown₁.trans hgrown₂⟩
  choose hp s _ _ _ _ h := hp s.control h
  retry {p} hp s m b s' m' h := by
    obtain ⟨s₁, h₁, rfl⟩ := retry_eq_some h
    obtain ⟨hsuffix, hrun⟩ := hp s.control h₁
    refine ⟨hsuffix, fun hroomy hs => ?_⟩
    obtain ⟨hs₁, hgrown⟩ := hrun hroomy hs
    cases b
    · refine ⟨⟨hs.fitting, hs.overflowed, hs.room, fun i hi => ?_,
        fun i hi => written_of_suffix hsuffix (hs.below i hi), hs.named⟩,
        Nat.le_refl _, hgrown.out⟩
      have hsolid := hs.solid i hi
      rwa [← hgrown.out i hi] at hsolid
    · exact ⟨hs₁, hgrown⟩
  step f s m b s' m' h := by
    cases h
    have hkeep : Snug n s m → Snug n (s.withControl (f s.control).2) m := fun hs =>
      ⟨⟨hs.fitting.outNull, hs.fitting.outEnd, hs.fitting.outCur, hs.fitting.prevName, hs.fitting.prevNameLength⟩,
        hs.overflowed, hs.room, hs.solid, hs.below, hs.named⟩
    exact ⟨List.suffix_refl _, fun _ hs => ⟨hkeep hs, Nat.le_refl _, fun _ _ => rfl⟩⟩
  text chars hnul := keepsText_act (maybeAppendWithLength_outputOnly _ _) fun s m hroomy hs =>
    ⟨hs.text chars hnul hroomy, maybeAppendWithLength_grown hs.fitting ..⟩
  replay := keepsText_act replayName_outputOnly fun s m hroomy hs =>
    ⟨hs.replay hroomy, maybeAppendWithLength_grown hs.fitting ..⟩

/-- What the loop of `ParsePrefix` appended before a rejected alternative is still there after it. -/
theorem KeepsText.separated {p : P} (hp : KeepsText n p)
    (h : p (maybeAppendSeparator s m).1 (maybeAppendSeparator s m).2 = some (false, (maybeAppendSeparator s m).1, m₁))
    (hroomy : Roomy n m₁.trace) (hs : Snug n s m) : Grown (s, m) ((maybeAppendSeparator s m).1, m₁) := by
  obtain ⟨-, hrun₁⟩ := (congruous_keepsText (n := n)).separator (s := s) (m := m) rfl
  obtain ⟨hsuffix₂, hrun₂⟩ := hp h
  obtain ⟨hs₁, hgrown₁⟩ := hrun₁ (hroomy.older hsuffix₂) hs
  exact hgrown₁.trans (hrun₂ hroomy hs₁).2

theorem separates_keepsText : Separates (KeepsText n) := fun p q r hp hleft hq hr s m b s' m' h => by
  obtain ⟨hsuffix₁, hrun₁⟩ := (congruous_keepsText (n := n)).separator (s := s) (m := m) rfl
  rcases separated_eq_some hleft h with ⟨s₂, m₂, h₁, h₂⟩ | ⟨m₂, h₁, h₂⟩
  · obtain ⟨hsuffix₂, hrun₂⟩ := hp h₁
    obtain ⟨hsuffix₃, hrun₃⟩ := hq h₂
    refine ⟨(hsuffix₁.trans hsuffix₂).trans hsuffix₃, fun hroomy hs => ?_⟩
    obtain ⟨hs₁, hgrown₁⟩ := hrun₁ (hroomy.older (hsuffix₂.trans hsuffix₃)) hs
    obtain ⟨hs₂, hgrown₂⟩ := hrun₂ (hroomy.older hsuffix₃) hs₁
    obtain ⟨hs', hgrown₃⟩ := hrun₃ hroomy hs₂
    exact ⟨hs', (hgrown₁.trans hgrown₂).trans hgrown₃⟩
  · obtain ⟨hsuffix₂, hrun₂⟩ := hp h₁
    obtain ⟨hsuffix₃, hrun₃⟩ := hr h₂
    have hcancel := (maybeCancelLastSeparator_outputOnly (maybeAppendSeparator s m).1 m₂).trace
    refine ⟨((hsuffix₁.trans hsuffix₂).trans hcancel).trans hsuffix₃, fun hroomy hs => ?_⟩
    have hroomy₂ := hroomy.older (hcancel.trans hsuffix₃)
    obtain ⟨hs₁, -⟩ := hrun₁ (hroomy₂.older hsuffix₂) hs
    obtain ⟨hs₂, -⟩ := hrun₂ hroomy₂ hs₁
    obtain ⟨hs₃, hgrown₃⟩ := hs.cancelled hs₂ (KeepsText.separated hp h₁ hroomy₂ hs)
    obtain ⟨hs', hgrown₄⟩ := hrun₃ hroomy hs₃
    exact ⟨hs', hgrown₃.trans hgrown₄⟩

end

end Glog.Demangle
