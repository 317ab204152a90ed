import Mathlib.Data.List.Infix
import Glog.Demangle.Frame
import Glog.Demangle.Names

/-! # The name that is remembered

A constructor or a destructor is printed as a copy of the name that was remembered last. A configuration alone does not say
which one that is; here it comes together with what `prev_name` and `prev_name_length` hold, as long as that is known. -/

namespace Glog.Demangle
open Backtrack Backtrack.Parser

/-- What `prev_name` and `prev_name_length` hold. -/
structure Remembered where
  start : Option Nat
  length : Int

/-- The states of a configuration that remember the name `x`, if there is one given. -/
def Recalls (mangled : CString) (n : Nat) (k : Config × Option Remembered) (s : State) (m : Mem) : Prop :=
  Matches mangled n k.1 s m ∧ ∀ x ∈ k.2, s.prevName = x.start ∧ s.prevNameLength = x.length

/-- From the states of `k` the parser answers `b` in a state of `k'`. -/
abbrev Runs (mangled : CString) (n : Nat) (p : P) (k : Config × Option Remembered) (b : Bool)
    (k' : Config × Option Remembered) : Prop :=
  Steps (Recalls mangled n) p k b k'

/-- Whether an appended text is remembered: it starts like an identifier, but not with a `$`. -/
def remembers (u : List Char) : Bool := isAlpha (u.headD '\x00') || u.headD '\x00' == '_'

/-- What is remembered once `u` was appended behind `text`. -/
def rememberedAt (text u : List Char) (x : Option Remembered) : Option Remembered :=
  if remembers u then some ⟨some text.length, u.length⟩ else x

section
variable {mangled : CString} {n : Nat} {c c' c₁ : Config} {x y : Option Remembered} {s s' : State} {m m' : Mem} {b : Bool}
  {p : P} {u r : List Char}

/-! ### Runs that keep the name -/

/-- What a run does to the configuration, and that it keeps the name. -/
theorem runs_of_goes (h : Goes mangled n p c b c')
    (hkeep : ∀ s m s' m', Matches mangled n c s m → p s m = some (b, s', m') →
    s'.prevName = s.prevName ∧ s'.prevNameLength = s.prevNameLength) : Runs mangled n p (c, x) b (c', x) := by
  rintro s m ⟨hs, hname⟩
  obtain ⟨s', m', hrun, hs'⟩ := h hs
  obtain ⟨hstart, hlength⟩ := hkeep s m s' m' hs hrun
  refine ⟨s', m', hrun, hs', fun y hy => ?_⟩
  rw [hstart, hlength]
  exact hname y hy

theorem goes_of_runs (h : Runs mangled n p (c, none) b (c', y)) : Goes mangled n p c b c' := fun s m hs => by
  obtain ⟨s', m', hrun, hs', -⟩ := h ⟨hs, nofun⟩
  exact ⟨s', m', hrun, hs'⟩

/-- The name may be forgotten. -/
theorem runs_none (h : Goes mangled n p c b c') : Runs mangled n p (c, x) b (c', none) := by
  rintro s m ⟨hs, -⟩
  obtain ⟨s', m', hrun, hs'⟩ := h hs
  exact ⟨s', m', hrun, hs', nofun⟩

theorem runs_call {f : Func} {k k' : Config × Option Remembered}
    (h : Runs mangled n (body mangled (parse mangled) f) k b k') :
    Runs mangled n (parse mangled f) k b k' := by
  rintro s m ⟨hs, hname⟩
  obtain ⟨s', m', hrun, hs'⟩ := h (show Recalls mangled n k s (noteCall f s m) from ⟨{ hs with }, hname⟩)
  exact ⟨s', m', (parse_eq f s m).trans hrun, hs'⟩

theorem runs_act {f : State → Mem → State × Mem} (h : Goes mangled n (.act f) c true c')
    (hkeep : ∀ s m, (f s m).1.prevName = s.prevName ∧ (f s m).1.prevNameLength = s.prevNameLength) :
    Runs mangled n (.act f) (c, x) true (c', x) := runs_of_goes h fun s m s' m' _ hrun => by
  obtain ⟨-, heq⟩ := act_eq_some hrun
  have hname := hkeep s m
  rwa [heq] at hname

/-- A rejected alternative puts the name back. -/
theorem runs_retry_false {p : State → P} (h : Goes mangled n (.retry p) c false c') :
    Runs mangled n (.retry p) (c, x) false (c', x) := runs_of_goes h fun s m s' m' _ hrun => by
  obtain ⟨-, -, rfl⟩ := retry_eq_some hrun
  exact ⟨rfl, rfl⟩

/-- A token that is accepted keeps the name. -/
theorem advance_prevName {find : State → Option Unit} {k : Nat}
    (h : Parser.lookup find (fun _ s m => (s.advance k, m)) s m = some (b, s', m')) :
    s'.prevName = s.prevName ∧ s'.prevNameLength = s.prevNameLength := by
  rcases lookup_eq_some h with ⟨_, -, -, heq⟩ | ⟨-, -, rfl, -⟩
  · cases heq
    exact ⟨rfl, rfl⟩
  · exact ⟨rfl, rfl⟩

theorem runs_parseIf {t : Char → Bool} {z : Char} {rest : List Char} (hrest : c.rest = z :: rest) (hz : t z = true) :
    Runs mangled n (parseIf mangled t) (c, x) true ({ c with rest := rest }, x) :=
  runs_of_goes (goes_parseIf hrest hz) fun s m s' m' _ hrun => by
    unfold parseIf at hrun
    exact advance_prevName hrun

theorem runs_token {token : Char} {rest : List Char} (hrest : c.rest = token :: rest) :
    Runs mangled n (parseOneCharToken mangled token) (c, x) true ({ c with rest := rest }, x) :=
  runs_parseIf hrest (beq_self_eq_true token)

theorem runs_twoCharToken {first second : Char} {rest : List Char} (hrest : c.rest = first :: second :: rest) :
    Runs mangled n (parseTwoCharToken mangled first second) (c, x) true ({ c with rest := rest }, x) :=
  runs_of_goes (goes_twoCharToken hrest) fun s m s' m' _ hrun => by
    unfold parseTwoCharToken at hrun
    exact advance_prevName hrun

/-- A function that cannot start here keeps the name. -/
theorem runs_silent (f : Func) (h : starts (c.rest.headD '\x00') f = false) (hf : f ≠ .topLevelMangledName) :
    Runs mangled n (parse mangled f) (c, x) false (c, x) := runs_of_goes (goes_silent f h hf) fun s m s' m' hs hrun => by
  obtain ⟨cur, loc, exp, heq⟩ : ∃ cur loc exp, failState mangled f s =
      { s with mangledCur := cur, localLevel := loc, exprLevel := exp } := failState_eq f h s
  rw [(parse_leaves f hf hrun).trans heq]
  exact ⟨rfl, rfl⟩

theorem runs_silent_digit (f : Func)
    (h : (∀ x ∈ "0123456789".toList, starts x f = false) ∧ f ≠ .topLevelMangledName)
    (hd : isDigit (c.rest.headD '\x00') = true) : Runs mangled n (parse mangled f) (c, x) false (c, x) :=
  runs_silent f (h.1 _ (mem_digits hd)) h.2

/-- With the append mode off the name is kept. -/
theorem runs_off {f : Func} (h : Goes mangled n (parse mangled f) c b c') (happend : c.append = false) :
    Runs mangled n (parse mangled f) (c, x) b (c', x) := runs_of_goes h fun s m s' m' hs hrun => by
  obtain ⟨b₁, s₁, m₁, hrun₁, -, -, houtput⟩ := parse_frames mangled f s m
  rw [hrun] at hrun₁
  cases hrun₁
  have hsame := houtput (hs.append.trans happend)
  exact ⟨hsame.prevName, hsame.prevNameLength⟩

/-! ### Appending -/

/-- The name that is remembered after a text was appended. -/
theorem text_prevName (hs : Matches mangled n c s m) (happend : c.append = true) (hu : u ≠ [])
    (hroom : c.text.length + 1 < n) (hname : ∀ y ∈ x, s.prevName = y.start ∧ s.prevNameLength = y.length) :
    ∀ y ∈ rememberedAt (c.text ++ spaceBefore c.text u) u x,
      (maybeAppendWithLength (.text u) u.length s m).1.prevName = y.start ∧
      (maybeAppendWithLength (.text u) u.length s m).1.prevNameLength = y.length := by
  have hpos : 0 < u.length := List.length_pos_iff.mpr hu
  obtain ⟨e, hspaced⟩ := matches_appendSpace (u := u) hs hroom
  have hhead : ((appendSpace (.text u) s m).2.read (.text u) 0).1 = u.headD '\x00' := by
    cases u with
    | nil => rfl
    | cons x u => rfl
  have hlast : ∀ s₁ m₁, (append (.text u) u.length s₁ m₁).1.prevName = s₁.prevName ∧
      (append (.text u) u.length s₁ m₁).1.prevNameLength = s₁.prevNameLength := append_prevName _ _
  rw [maybeAppendWithLength, if_pos ⟨hs.append.trans happend, by omega⟩]
  dsimp only
  rw [(hlast ..).1, (hlast ..).2, rememberName_eq, hhead]
  change ∀ y ∈ _, (if remembers u then _ else _ : State).prevName = _ ∧
    (if remembers u then _ else _ : State).prevNameLength = _
  intro y hy
  unfold rememberedAt at hy
  by_cases hletter : remembers u = true
  · rw [if_pos hletter] at hy
    cases hy
    rw [if_pos hletter]
    exact ⟨congrArg some hspaced.outCur, rfl⟩
  · rw [if_neg hletter] at hy
    rw [if_neg hletter, (appendSpace_prevName ..).1, (appendSpace_prevName ..).2]
    exact hname y hy

/-- A text that does not start like an identifier is not remembered. -/
theorem runs_appending {t : String} (h : Goes mangled n (appending t) c true c') (happend : c.append = true)
    (ht : t.toList ≠ []) (hname : remembers t.toList = false) (hroom : c.text.length + 1 < n) :
    Runs mangled n (appending t) (c, x) true (c', x) := by
  rintro s m ⟨hs, hx⟩
  obtain ⟨s', m', hrun, hs'⟩ := h hs
  refine ⟨s', m', hrun, hs', ?_⟩
  have hnext := text_prevName hs happend ht hroom hx
  rw [rememberedAt, if_neg (by rw [hname]; exact Bool.false_ne_true)] at hnext
  obtain ⟨-, heq⟩ := act_eq_some hrun
  rw [maybeAppend, if_pos (hs.append.trans happend)] at heq
  rwa [heq] at hnext

theorem runs_separator (happend : c.append = true) (hlevel : c.nestLevel ≥ 1) (hroom : c.text.length + 3 < n) :
    Runs mangled n (.act maybeAppendSeparator) (c, x) true ({ c with text := c.text ++ "::".toList, ended := true },
      x) := by
  have hgoes : Goes mangled n (appending "::") c true { c with text := c.text ++ "::".toList, ended := true } :=
    goes_appending hroom happend (by decide) (by decide)
  have hruns : Runs mangled n (appending "::") (c, x) true ({ c with text := c.text ++ "::".toList, ended := true }, x) :=
    runs_appending hgoes happend (by decide) (by decide) (by omega)
  rintro s m ⟨hs, hx⟩
  obtain ⟨s', m', hrun, hs'⟩ := hruns ⟨hs, hx⟩
  refine ⟨s', m', ?_, hs'⟩
  rw [← hrun]
  refine congrArg (fun r => some (true, r)) (if_pos ?_)
  rw [hs.nestLevel]
  exact hlevel

theorem runs_separator_none (hlevel : ¬ c.nestLevel ≥ 1) :
    Runs mangled n (.act maybeAppendSeparator) (c, x) true (c, x) := by
  rintro s m ⟨hs, hx⟩
  refine ⟨s, m, congrArg (fun r => some (true, r)) (if_neg ?_), hs, hx⟩
  rw [hs.nestLevel]
  exact hlevel

theorem maybeCancelLastSeparator_prevName (s : State) (m : Mem) :
    (maybeCancelLastSeparator s m).1.prevName = s.prevName ∧
    (maybeCancelLastSeparator s m).1.prevNameLength = s.prevNameLength := by
  unfold maybeCancelLastSeparator
  split <;> exact ⟨rfl, rfl⟩

theorem runs_cancel {text : List Char} (htext : c.text = text ++ "::".toList) (happend : c.append = true)
    (hlevel : c.nestLevel ≥ 1) :
    Runs mangled n (.act maybeCancelLastSeparator) (c, x) true ({ c with text := text, ended := true }, x) :=
  runs_act (goes_cancel htext happend hlevel) maybeCancelLastSeparator_prevName

theorem runs_increase :
    Runs mangled n (.act maybeIncreaseNestLevel) (c, x) true ({ c with nestLevel := nextLevel c.nestLevel }, x) :=
  runs_act goes_increase fun s m => by
    unfold maybeIncreaseNestLevel
    split <;> exact ⟨rfl, rfl⟩

/-! ### Source names -/

theorem runs_identifier (hrest : c.rest = u ++ r) (hu : Identifier u) (hroom : c.text.length + u.length + 1 < n)
    (happend : c.append = true) : Runs mangled n (parseIdentifier mangled u.length) (c, x) true
      (c.named u r, rememberedAt (c.text ++ spaceBefore c.text u) u x) := by
  rintro s m ⟨hs, hx⟩
  obtain ⟨s', m', hrun, hs'⟩ := goes_identifier hrest hu hroom hs
  refine ⟨s', m', hrun, hs', ?_⟩
  have hnext := text_prevName (c := c) (x := x) hs happend hu.nonempty (by omega) hx
  rw [← appendIdentifier_eq hs hrest hu] at hnext
  unfold parseIdentifier at hrun
  dsimp only at hrun
  split at hrun
  · cases hrun
  · split at hrun
    · cases hrun
    · cases hrun
      exact hnext

theorem runs_sourceName (hrest : c.rest = sourceName u ++ r) (hu : Identifier u) (hlen : u.length ≤ intMax)
    (hroom : c.text.length + u.length + 1 < n) (happend : c.append = true) :
    Runs mangled n (parse mangled .sourceName) (c, x) true
      (c.named u r, rememberedAt (c.text ++ spaceBefore c.text u) u x) := by
  have hidentifier : Runs mangled n (parse mangled (.identifier u.length)) ({ c with rest := u ++ r }, x) true
      (c.named u r, rememberedAt (c.text ++ spaceBefore c.text u) u x) :=
    runs_call (runs_identifier (c := { c with rest := u ++ r }) rfl hu hroom happend)
  refine runs_call (.retry fun _ _ _ => .reading (fun s m hs => ?_) (fun s m hs => ?_) hidentifier)
  · rw [parseNumber_sourceName hs.1 hrest hu.nonempty hu.head hlen]
  · rw [parseNumber_sourceName hs.1 hrest hu.nonempty hu.head hlen]
    have h := hs.1.advance (Nat.toDigits 10 u.length).length
    rw [hrest, sourceName, List.append_assoc, List.drop_left] at h
    exact ⟨h, hs.2⟩

theorem runs_unscopedName (hrest : c.rest = sourceName u ++ r) (hu : Identifier u) (hlen : u.length ≤ intMax)
    (hroom : c.text.length + u.length + 1 < n) (happend : c.append = true) (hr : r.headD '\x00' ≠ 'B') :
    Runs mangled n (parse mangled .unscopedName) (c, x) true
      (c.named u r, rememberedAt (c.text ++ spaceBefore c.text u) u x) := by
  have hd := isDigit_rest hrest
  have habi : Runs mangled n (parse mangled .abiTags) (c.named u r, rememberedAt (c.text ++ spaceBefore c.text u) u x) false
      (c.named u r, rememberedAt (c.text ++ spaceBefore c.text u) u x) :=
    runs_silent .abiTags (beq_false_of_ne hr) nofun
  exact runs_call (.either_true (runs_call (.either_true (.either (.either (runs_silent_digit .operatorName (by decide) hd)
    (runs_silent_digit .ctorDtorName (by decide) hd))
    (.both (runs_sourceName hrest hu hlen hroom happend) (.optional habi))))))

/-! ### The copy -/

/-- The remembered name is `w`, and it stands in the text. -/
structure Locates (text : List Char) (x : Remembered) (w : List Char) : Prop where
  length : x.length.toNat = w.length
  start : w ≠ [] → ∃ start, x.start = some start ∧ w <+: text.drop start
  head : w ≠ [] → remembers w = true

theorem Locates.extend {text text' w : List Char} {x : Remembered} (h : Locates text x w) (htext : text <+: text') :
    Locates text' x w where
  length := h.length
  start hw := by
    obtain ⟨start, hstart, hpre⟩ := h.start hw
    exact ⟨start, hstart, hpre.trans (List.IsPrefix.drop htext start)⟩
  head := h.head

/-- A name that is appended is remembered, if it starts like one. -/
theorem locates_rememberedAt {text u w : List Char} {x : Remembered} (h : Locates text x w) :
    ∃ y, rememberedAt text u (some x) = some y ∧ Locates (text ++ u) y (if remembers u then u else w) := by
  unfold rememberedAt
  by_cases hu : remembers u = true
  · rw [if_pos hu, if_pos hu]
    refine ⟨_, rfl, Int.toNat_natCast _, fun _ => ⟨text.length, rfl, ?_⟩, fun _ => hu⟩
    rw [List.drop_left]
  · rw [if_neg hu, if_neg hu]
    exact ⟨x, rfl, h.extend (List.prefix_append text u)⟩

theorem not_remembers_of_head {w : List Char} (h : w.headD '\x00' = '<') : remembers w = false := by
  unfold remembers
  rw [h]
  rfl

/-- The loop of `Append` reads the name where it stands, in front of what it writes. -/
theorem appendLoop_copies {text w : List Char} {start : Nat} (hw : w <+: text.drop start) :
    ∀ (left i : Nat) (s : State) (m : Mem), i + left = w.length → s.outCur = text.length + i →
      text.length + w.length < s.outEnd → Shows (text ++ w.take i) m →
      ∃ m', appendLoop (.out (some start)) left i s m = ({ s with outCur := s.outCur + left }, m') ∧ Shows (text ++ w) m'
  | 0, i, s, m, hi, _, _, hshows => by
    refine ⟨m, rfl, ?_⟩
    rwa [List.take_of_length_le (by omega)] at hshows
  | left + 1, i, s, m, hi, hcur, hroom, hshows => by
    have hlt : i < w.length := by omega
    have hle := hw.length_le
    rw [List.length_drop] at hle
    have hchar : m.out (start + i) = w[i] := by
      rw [hshows (start + i) (by rw [List.length_append]; omega), List.getElem_append_left (by omega), hw.getElem hlt,
        List.getElem_drop]
    have hlen : (text ++ w.take i).length = s.outCur := by
      rw [List.length_append, List.length_take, hcur]
      omega
    have hnext : Shows (text ++ w.take (i + 1)) ((m.note (.read (start + i))).write s.outCur w[i]) := by
      have hread : Shows (text ++ w.take i) (m.note (.read (start + i))) := hshows.of_out rfl
      have hwritten := hread.write w[i]
      rw [hlen] at hwritten
      rwa [List.append_assoc, List.take_append_getElem hlt] at hwritten
    obtain ⟨m', hrun, hshows'⟩ := appendLoop_copies hw left (i + 1) { s with outCur := s.outCur + 1 } _ (by omega)
      (by simp only [hcur]; omega) hroom hnext
    refine ⟨m', ?_, hshows'⟩
    rw [appendLoop, if_pos (by omega)]
    change appendLoop _ left (i + 1) _ ((m.note (.read (start + i))).write s.outCur (m.out (start + i))) = _
    rw [hchar, hrun, Nat.add_assoc, Nat.add_comm 1 left]

/-- The remembered name is appended again. -/
theorem runs_replay {y : Remembered} {w : List Char} (hy : Locates c.text y w) (happend : c.append = true)
    (hended : c.ended = true) (hroom : c.text.length + w.length + 1 < n) :
    Runs mangled n (.act replayName) (c, some y) true ({ c with text := c.text ++ w }, none) := by
  refine .act ?_
  rintro s m ⟨hs, hname⟩
  obtain ⟨hstart, hlength⟩ := hname y rfl
  refine ⟨?_, nofun⟩
  by_cases hw : w = []
  · have hidle : ¬ 0 < y.length := fun hpos => by
      have hzero := hy.length
      rw [hw, List.length_nil] at hzero
      omega
    rw [replayName, maybeAppendWithLength, hlength, if_neg fun hc => hidle hc.2, hw, List.append_nil]
    exact hs
  · obtain ⟨start, hsome, hpre⟩ := hy.start hw
    rw [hsome] at hstart
    have hpos : 0 < w.length := List.length_pos_iff.mpr hw
    have hle := hpre.length_le
    rw [List.length_drop] at hle
    -- The name does not start with `<`, so that no space is put in front of it.
    have hlt : start < c.text.length := by omega
    have hhead : m.out start ≠ '<' := fun hc => by
      rw [hs.shows start hlt] at hc
      have hfirst : w.headD '\x00' = '<' := by
        obtain ⟨z, v, rfl⟩ := List.exists_cons_of_ne_nil hw
        have hz := hpre.getElem (i := 0) hpos
        rw [List.getElem_drop] at hz
        exact hz.trans hc
      have hnot := hy.head hw
      rw [not_remembers_of_head hfirst] at hnot
      cases hnot
    have hspaced : appendSpace (.out (some start)) s m = (s, m.note (.read start)) := if_neg fun hc => hhead hc.1
    have hmatches : Matches mangled n c (rememberName (.out (some start)) s.prevNameLength s (m.note (.read start))).1
        (rememberName (.out (some start)) s.prevNameLength s (m.note (.read start))).2 := by
      rw [rememberName_eq]
      dsimp only
      split
      · exact { hs with }
      · exact { hs with }
    have hlen : s.prevNameLength.toNat = w.length := by
      rw [hlength]
      exact hy.length
    obtain ⟨m', hrun, hshows⟩ := appendLoop_copies hpre w.length 0
      (rememberName (.out (some start)) s.prevNameLength s (m.note (.read start))).1
      ((rememberName (.out (some start)) s.prevNameLength s (m.note (.read start))).2.note
        (.append (.out (some start)) w.length
          (rememberName (.out (some start)) s.prevNameLength s (m.note (.read start))).1.outCur
          (rememberName (.out (some start)) s.prevNameLength s (m.note (.read start))).1.overflowed))
      (Nat.zero_add _) hmatches.outCur (by rw [hmatches.outEnd]; omega) (by
        rw [List.take_zero, List.append_nil]
        exact hmatches.shows)
    have hnext := matches_append_of_loop hmatches hlen hrun hshows
    rw [replayName, maybeAppendWithLength, if_pos ⟨hs.append.trans happend, by omega⟩, hstart, hspaced]
    cases c
    cases hended
    exact hnext

end

end Glog.Demangle
