import Glog.Backtrack.Steps
import Glog.Demangle.First

/-! # Following the demangler on a given name

A configuration holds what is known of the state while a name is followed: the rest of the mangled name, the
output so far, and the fields that decide what is done next. The recursion levels of local names and of
expressions are left open: a failed attempt may raise them. -/

namespace Glog.Demangle
open Backtrack Backtrack.Parser

structure Config where
  rest : List Char
  text : List Char
  /-- The output is terminated behind `text`. -/
  ended : Bool
  append : Bool
  nestLevel : Int
  argLevel : Nat

/-- The buffer starts with `text`. -/
def Shows (text : List Char) (m : Mem) : Prop := ∀ (i : Nat) (h : i < text.length), m.out i = text[i]

/-- The states of a configuration, for an output buffer of size `n` that has not overflowed. -/
structure Matches (mangled : CString) (n : Nat) (c : Config) (s : State) (m : Mem) : Prop where
  rest : mangled.rest s.mangledCur = c.rest
  outCur : s.outCur = c.text.length
  outEnd : s.outEnd = n
  outNull : s.outNull = false
  overflowed : s.overflowed = false
  append : s.append = c.append
  nestLevel : s.nestLevel = c.nestLevel
  argLevel : s.argLevel = c.argLevel
  shows : Shows c.text m
  ended : c.ended = true → m.out c.text.length = '\x00'

/-- The level after `MaybeIncreaseNestLevel`. -/
def nextLevel (level : Int) : Int := if level > -1 then (level + 1).bmod 65536 else level

/-- From the states of `c` the parser answers `b` in a state of `c'`. -/
abbrev Goes (mangled : CString) (n : Nat) (p : P) (c : Config) (b : Bool) (c' : Config) : Prop :=
  Steps (Matches mangled n) p c b c'

section
variable {mangled : CString} {n : Nat} {c c' : Config} {s s₁ : State} {m m₁ : Mem} {b : Bool} {p q : P}

theorem char_eq_rest (s : State) (k : Nat) : s.char mangled k = (mangled.rest s.mangledCur).getD k '\x00' := by
  rw [CString.rest, List.getD_eq_getElem?_getD, List.getElem?_drop, ← List.getD_eq_getElem?_getD]
  rfl

theorem head_eq_rest (s : State) : s.char mangled 0 = (mangled.rest s.mangledCur).headD '\x00' := by
  rw [char_eq_rest]
  cases mangled.rest s.mangledCur <;> rfl

theorem Matches.char (h : Matches mangled n c s m) (k : Nat) : s.char mangled k = c.rest.getD k '\x00' := by
  rw [char_eq_rest, h.rest]

theorem Matches.head (h : Matches mangled n c s m) : s.char mangled 0 = c.rest.headD '\x00' := by
  rw [head_eq_rest, h.rest]

theorem Matches.advance (h : Matches mangled n c s m) (k : Nat) :
    Matches mangled n { c with rest := c.rest.drop k } (s.advance k) m := by
  have hrest : mangled.chars.drop (s.mangledCur + k) = c.rest.drop k := by
    rw [← h.rest, CString.rest, List.drop_drop]
  exact { h with rest := hrest }

/-- The cursor state of one run with the buffer of a later one. -/
theorem Matches.back (h : Matches mangled n c s m) (h₁ : Matches mangled n c' s₁ m₁) (htext : c.text <+: c'.text) :
    Matches mangled n { c with ended := false } s m₁ :=
  { h with
    shows := fun i hi => by
      obtain ⟨u, hu⟩ := htext
      have hlt : i < c'.text.length := by
        rw [← hu, List.length_append]
        exact Nat.lt_add_right _ hi
      rw [h₁.shows i hlt]
      simp only [← hu, List.getElem_append_left hi]
    ended := nofun }

/-- The same where the later run left the output alone. -/
theorem Matches.back_same (h : Matches mangled n c s m) (h₁ : Matches mangled n c s₁ m₁) : Matches mangled n c s m₁ :=
  { h with shows := h₁.shows, ended := h₁.ended }

/-- A rejected alternative that left the configuration as it was. -/
theorem goes_retry_false {p : State → P} (h : ∀ s m, Matches mangled n c s m → Goes mangled n (p s) c false c) :
    Goes mangled n (.retry p) c false c :=
  .retry_false h fun _ _ _ _ hs hs₁ => hs.back_same hs₁

theorem goes_retry_back {p : State → P} (h : ∀ s m, Matches mangled n c s m → Goes mangled n (p s) c false c')
    (htext : c.text <+: c'.text) : Goes mangled n (.retry p) c false { c with ended := false } :=
  .retry_false h fun _ _ _ _ hs hs₁ => hs.back hs₁ htext

/-- The recursive equations. -/
theorem goes_call {f : Func} (h : Goes mangled n (body mangled (parse mangled) f) c b c') :
    Goes mangled n (parse mangled f) c b c' := fun s m hs => by
  obtain ⟨s', m', hrun, hs'⟩ := h (show Matches mangled n c s (noteCall f s m) from { hs with })
  exact ⟨s', m', (parse_eq f s m).trans hrun, hs'⟩

/-! ### Tokens -/

theorem goes_parseIf {t : Char → Bool} {x : Char} {rest : List Char} (hrest : c.rest = x :: rest) (hx : t x = true) :
    Goes mangled n (parseIf mangled t) c true { c with rest := rest } := by
  have hchar : ∀ s m, Matches mangled n c s m → s.char mangled 0 = x :=
    fun s m hs => by rw [hs.head, hrest, List.headD_cons]
  refine .lookup (x := ()) (fun s m hs => by rw [hchar s m hs, if_pos hx]) fun s m hs => ?_
  have hnext := hs.advance 1
  rwa [hrest, List.drop_one, List.tail_cons] at hnext

theorem goes_parseIf_false {t : Char → Bool} (h : t (c.rest.headD '\x00') = false) :
    Goes mangled n (parseIf mangled t) c false c :=
  .lookup_none fun s m hs => by simp only [hs.head, h, Bool.false_eq_true, if_false]

theorem goes_token {token : Char} {rest : List Char} (hrest : c.rest = token :: rest) :
    Goes mangled n (parseOneCharToken mangled token) c true { c with rest := rest } :=
  goes_parseIf hrest (beq_self_eq_true token)

theorem goes_token_false {token : Char} (h : c.rest.headD '\x00' ≠ token) :
    Goes mangled n (parseOneCharToken mangled token) c false c :=
  goes_parseIf_false (beq_false_of_ne h)

theorem goes_twoCharToken {first second : Char} {rest : List Char} (hrest : c.rest = first :: second :: rest) :
    Goes mangled n (parseTwoCharToken mangled first second) c true { c with rest := rest } := by
  refine .lookup (x := ()) (fun s m hs => ?_) fun s m hs => ?_
  · rw [hs.char, hs.char, hrest]
    simp
  · have hnext := hs.advance 2
    rwa [hrest] at hnext

theorem goes_twoCharToken_false {first second : Char} (h : c.rest.headD '\x00' ≠ first) :
    Goes mangled n (parseTwoCharToken mangled first second) c false c :=
  .lookup_none fun s m hs => by simp only [hs.head, beq_false_of_ne h, Bool.false_and, Bool.false_eq_true, if_false]

/-! ### Calls that fail at once -/

theorem failLocalName_eq (s : State) : ∃ level, failLocalName s = { s with localLevel := level } := by
  unfold failLocalName
  split <;> exact ⟨_, rfl⟩

theorem failToken_eq (token : Char) (s : State) : ∃ cur, failToken mangled token s = { s with mangledCur := cur } := by
  unfold failToken
  split <;> exact ⟨_, rfl⟩

theorem failState_eq {x : Char} (f : Func) (hf : starts x f = false) (s : State) :
    ∃ cur loc exp, failState mangled f s = { s with mangledCur := cur, localLevel := loc, exprLevel := exp } := by
  have hlocal : ∃ cur loc exp, failLocalName s = { s with mangledCur := cur, localLevel := loc, exprLevel := exp } := by
    obtain ⟨level, heq⟩ := failLocalName_eq s
    exact ⟨_, _, _, heq⟩
  have htoken : ∀ token, ∃ cur loc exp, failToken mangled token s =
      { s with mangledCur := cur, localLevel := loc, exprLevel := exp } := fun token => by
    obtain ⟨cur, heq⟩ : ∃ cur, failToken mangled token s = { s with mangledCur := cur } := failToken_eq token s
    exact ⟨_, _, _, heq⟩
  cases f with
  | localName => exact hlocal
  | name => exact hlocal
  | encoding => exact hlocal
  | classEnumType => exact hlocal
  | number => exact htoken 'n'
  | nvOffset => exact htoken 'n'
  | abiTag => exact htoken 'B'
  | expression =>
    change ∃ cur loc exp, failExpression s = _
    unfold failExpression
    split <;> exact ⟨_, _, _, rfl⟩
  | mangledName =>
    unfold failState
    dsimp only
    split
    · obtain ⟨level, heq⟩ := failLocalName_eq (s.advance 2)
      exact ⟨_, _, _, heq⟩
    · exact ⟨_, _, _, rfl⟩
  | templateArg => cases hf
  | oneOrMore item =>
    cases item with
    | abiTag => exact htoken 'B'
    | type => exact ⟨_, _, _, rfl⟩
    | templateArg => cases hf
  | _ => exact ⟨_, _, _, rfl⟩

/-- A function that cannot start with the next character fails, and leaves the configuration as it was. -/
theorem goes_silent (f : Func) (h : starts (c.rest.headD '\x00') f = false) (hf : f ≠ .topLevelMangledName) :
    Goes mangled n (parse mangled f) c false c := fun s m hs => by
  obtain ⟨⟨v, s', m'⟩, hrun⟩ := Option.isSome_iff_exists.mp (parse_isSome mangled f s m)
  obtain ⟨rfl, hcur, hout⟩ := silent_parse f h hs.head hrun
  obtain ⟨cur, loc, exp, heq⟩ : ∃ cur loc exp, failState mangled f s =
      { s with mangledCur := cur, localLevel := loc, exprLevel := exp } := failState_eq f h s
  have hleft := (parse_leaves f hf hrun).trans heq
  subst hleft
  have hrest : mangled.rest cur = c.rest := by
    rw [← hs.rest]
    exact congrArg mangled.rest hcur
  refine ⟨_, m', hrun, { hs with rest := hrest, shows := fun i hi => ?_, ended := fun he => ?_ }⟩
  · rw [hout]
    exact hs.shows i hi
  · rw [hout]
    exact hs.ended he

/-! ### Changes of the state -/

theorem goes_enterNestedName : Goes mangled n enterNestedName c true { c with nestLevel := 0 } :=
  .act fun _ _ hs => { hs with nestLevel := rfl }

theorem goes_leaveNestedName (level : Int) : Goes mangled n (leaveNestedName level) c true { c with nestLevel := level } :=
  .act fun _ _ hs => { hs with nestLevel := rfl }

theorem goes_disableAppend : Goes mangled n disableAppend c true { c with append := false } :=
  .act fun _ _ hs => { hs with append := rfl }

theorem goes_restoreAppend (b : Bool) : Goes mangled n (restoreAppend b) c true { c with append := b } :=
  .act fun _ _ hs => { hs with append := rfl }

theorem goes_raiseArgLevel : Goes mangled n raiseArgLevel c true { c with argLevel := c.argLevel + 1 } :=
  .act fun _ _ hs => { hs with argLevel := congrArg (· + 1) hs.argLevel }

theorem goes_lowerArgLevel : Goes mangled n lowerArgLevel c true { c with argLevel := c.argLevel - 1 } :=
  .act fun _ _ hs => { hs with argLevel := congrArg (· - 1) hs.argLevel }

/-! ### Output -/

theorem Shows.write {text : List Char} (h : Shows text m) (x : Char) : Shows (text ++ [x]) (m.write text.length x) :=
  fun i hi => by
    rw [List.length_append, List.length_singleton] at hi
    simp only [Mem.write, Function.update_apply]
    by_cases hlast : i = text.length
    · subst hlast
      simp
    · rw [if_neg hlast, h i (by omega), List.getElem_append_left (by omega)]

theorem Shows.of_out {text : List Char} (h : Shows text m) (hout : m₁.out = m.out) : Shows text m₁ := fun i hi => by
  rw [hout]
  exact h i hi

theorem Shows.terminate {text : List Char} (h : Shows text m) : Shows text (m.write text.length '\x00') := fun i hi => by
  simp only [Mem.write, Function.update_apply]
  rw [if_neg (by omega), h i hi]

/-- The loop of `Append` with room for all of the text. -/
theorem appendLoop_shows (u : List Char) : ∀ (left i : Nat) (text : List Char) (s : State) (m : Mem),
    s.outCur = text.length → text.length + left < s.outEnd → i + left = u.length → Shows text m →
      ∃ m', appendLoop (.text u) left i s m = ({ s with outCur := s.outCur + left }, m') ∧ Shows (text ++ u.drop i) m'
  | 0, i, text, s, m, hcur, _, hi, htext => by
    refine ⟨m, rfl, ?_⟩
    rwa [List.drop_of_length_le (by omega), List.append_nil]
  | left + 1, i, text, s, m, hcur, hroom, hi, htext => by
    have hlt : i < u.length := by omega
    have hread : (m.read (.text u) i) = (u[i], m) := by
      simp only [Mem.read, List.getD_eq_getElem?_getD, List.getElem?_eq_getElem hlt, Option.getD_some]
    obtain ⟨m', hrun, htext'⟩ := appendLoop_shows u left (i + 1) (text ++ [u[i]]) { s with outCur := s.outCur + 1 }
      (m.write text.length u[i]) (by simp [hcur]) (by simp; omega) (by omega) (htext.write _)
    refine ⟨m', ?_, ?_⟩
    · rw [appendLoop, if_pos (by omega), hread, hcur]
      rw [hcur] at hrun
      refine hrun.trans ?_
      rw [Nat.add_assoc, Nat.add_comm 1 left]
    · rwa [List.append_assoc, List.singleton_append, ← List.drop_eq_getElem_cons hlt] at htext'

theorem Matches.of_out (h : Matches mangled n c s m) (hout : m₁.out = m.out) : Matches mangled n c s m₁ :=
  { h with
    shows := h.shows.of_out hout
    ended := fun he => by rw [hout]; exact h.ended he }

theorem matches_rememberName {u : List Char} (h : Matches mangled n c s m) (length : Int) :
    Matches mangled n c (rememberName (.text u) length s m).1 (rememberName (.text u) length s m).2 := by
  unfold rememberName
  dsimp only
  split
  · exact { h with }
  · exact h

/-- `Append`, once its loop has copied all of `u`. -/
theorem matches_append_of_loop {str : Str} {u : List Char} {length : Int} {m' : Mem} (h : Matches mangled n c s m)
    (hlength : length.toNat = u.length)
    (hloop : appendLoop str u.length 0 s (m.note (.append str u.length s.outCur s.overflowed)) =
      ({ s with outCur := s.outCur + u.length }, m')) (htext : Shows (c.text ++ u) m') :
    Matches mangled n { c with text := c.text ++ u, ended := true } (append str length s m).1
      (append str length s m).2 := by
  have hcur : s.outCur + u.length = (c.text ++ u).length := by rw [h.outCur, List.length_append]
  have heq : append str length s m =
      ({ s with outCur := s.outCur + u.length }, m'.write (s.outCur + u.length) '\x00') := by
    have hnull : ¬ s.outNull = true := by simp [h.outNull]
    have hover : ¬ s.overflowed = true := by simp [h.overflowed]
    unfold append
    dsimp only
    rw [hlength, if_neg hnull, hloop, if_neg hover]
  rw [heq]
  refine { h with outCur := hcur, shows := ?_, ended := fun _ => ?_ }
  · rw [hcur]
    exact htext.terminate
  · simp only [Mem.write, hcur, Function.update_self]

theorem matches_append {u : List Char} (h : Matches mangled n c s m) (hroom : c.text.length + u.length < n) :
    Matches mangled n { c with text := c.text ++ u, ended := true } (append (.text u) u.length s m).1
      (append (.text u) u.length s m).2 := by
  obtain ⟨m', hrun, htext⟩ :=
    appendLoop_shows u u.length 0 c.text s (m.note (.append (.text u) u.length s.outCur s.overflowed))
    h.outCur (by rw [h.outEnd]; exact hroom) (Nat.zero_add _) h.shows
  rw [List.drop_zero] at htext
  exact matches_append_of_loop h (Int.toNat_natCast _) hrun htext

/-- The space that keeps `<` apart from `<`. -/
def spaceBefore (text u : List Char) : List Char := if u.head? = some '<' ∧ text.getLast? = some '<' then [' '] else []

theorem spaceBefore_of_head {text u : List Char} (h : u.head? ≠ some '<') : spaceBefore text u = [] :=
  if_neg fun hc => h hc.1

theorem matches_appendSpace {u : List Char} (h : Matches mangled n c s m) (hroom : c.text.length + 1 < n) :
    ∃ e, Matches mangled n { c with text := c.text ++ spaceBefore c.text u, ended := e } (appendSpace (.text u) s m).1
      (appendSpace (.text u) s m).2 := by
  have hhead : (m.read (.text u) 0).1 = '<' ↔ u.head? = some '<' := by
    cases u with
    | nil => simp [Mem.read]
    | cons x u => simp [Mem.read]
  have hlast : 0 < s.outCur → (m.out (s.outCur - 1) = '<' ↔ c.text.getLast? = some '<') := fun hpos => by
    have hlen : s.outCur - 1 < c.text.length := by
      have := h.outCur
      omega
    rw [h.shows _ hlen, List.getLast?_eq_getElem?, ← h.outCur, List.getElem?_eq_getElem hlen, Option.some_inj]
  have hnone : spaceBefore c.text u = [] → Matches mangled n { c with text := c.text ++ spaceBefore c.text u } s m :=
    fun heq => by rwa [heq, List.append_nil]
  unfold appendSpace
  dsimp only
  split
  · rename_i hc
    split
    · rename_i hlt
      have hspace : spaceBefore c.text u = [' '] := if_pos ⟨hhead.mp hc.1, (hlast hc.2).mp hlt⟩
      rw [hspace]
      have hread : Matches mangled n c s ((m.read (.text u) 0).2.read (.out (some (s.outCur - 1))) 0).2 := h.of_out rfl
      exact ⟨true, matches_append (u := [' ']) hread hroom⟩
    · rename_i hlt
      have hspace : spaceBefore c.text u = [] := if_neg fun hb => hlt ((hlast hc.2).mpr hb.2)
      exact ⟨c.ended, (hnone hspace).of_out rfl⟩
  · rename_i hc
    have hspace : spaceBefore c.text u = [] := if_neg fun hb => hc ⟨hhead.mpr hb.1, by
      rw [h.outCur]
      refine List.length_pos_iff.mpr fun hnil => ?_
      rw [hnil] at hb
      cases hb.2⟩
    exact ⟨c.ended, hnone hspace⟩

/-- A text that is appended. -/
theorem matches_maybeAppendWithLength {u : List Char} (h : Matches mangled n c s m) (hu : u ≠ [])
    (hroom : c.text.length + u.length + 1 < n) (happend : c.append = true) :
    Matches mangled n { c with text := c.text ++ spaceBefore c.text u ++ u, ended := true }
      (maybeAppendWithLength (.text u) u.length s m).1 (maybeAppendWithLength (.text u) u.length s m).2 := by
  have hpos : 0 < u.length := List.length_pos_iff.mpr hu
  have hspace : (spaceBefore c.text u).length ≤ 1 := by
    unfold spaceBefore
    split <;> decide
  obtain ⟨e, hspaced⟩ := matches_appendSpace (u := u) h (by omega)
  unfold maybeAppendWithLength
  rw [if_pos ⟨h.append.trans happend, by omega⟩]
  exact matches_append (matches_rememberName hspaced _) (by simp only [List.length_append]; omega)

/-- With the append mode off nothing is appended. -/
theorem maybeAppendWithLength_off {str : Str} {length : Int} (h : Matches mangled n c s m) (happend : c.append = false) :
    maybeAppendWithLength str length s m = (s, m) := by
  rw [maybeAppendWithLength, if_neg]
  rw [h.append, happend]
  exact fun hc => Bool.false_ne_true hc.1

theorem matches_maybeAppend {u : List Char} (h : Matches mangled n c s m) (hu : u ≠ []) (hhead : u.head? ≠ some '<')
    (hroom : c.text.length + u.length + 1 < n) (happend : c.append = true) :
    Matches mangled n { c with text := c.text ++ u, ended := true } (maybeAppend u s m).1 (maybeAppend u s m).2 := by
  have happended := matches_maybeAppendWithLength h hu hroom happend
  rw [spaceBefore_of_head hhead, List.append_nil] at happended
  rwa [maybeAppend, if_pos (h.append.trans happend)]

theorem maybeAppend_off {u : List Char} (h : Matches mangled n c s m) (happend : c.append = false) :
    maybeAppend u s m = (s, m) := by
  rw [maybeAppend, if_neg]
  rw [h.append, happend]
  exact Bool.false_ne_true

theorem goes_appending {u : String} (hroom : c.text.length + u.toList.length + 1 < n) (happend : c.append = true)
    (hu : u.toList ≠ []) (hhead : u.toList.head? ≠ some '<') :
    Goes mangled n (appending u) c true { c with text := c.text ++ u.toList, ended := true } :=
  .act fun _ _ hs => matches_maybeAppend hs hu hhead hroom happend

theorem goes_appending_off {u : String} (happend : c.append = false) : Goes mangled n (appending u) c true c :=
  .act fun _ _ hs => by
    rw [maybeAppend_off hs happend]
    exact hs

/-! ### Separators -/

theorem goes_cancel {text : List Char} (htext : c.text = text ++ "::".toList) (happend : c.append = true)
    (hlevel : c.nestLevel ≥ 1) :
    Goes mangled n (.act maybeCancelLastSeparator) c true { c with text := text, ended := true } :=
  .act fun s m hs => by
    have hcur : s.outCur = text.length + 2 := by
      rw [hs.outCur, htext, List.length_append]
      rfl
    have hshort : s.outCur - 2 = text.length := by omega
    rw [maybeCancelLastSeparator, if_pos ⟨by rw [hs.nestLevel]; exact hlevel, hs.append.trans happend, Or.inr (by omega)⟩,
      hshort]
    have hshows : Shows text m := fun i hi => by
      have hlt : i < c.text.length := by
        rw [htext, List.length_append]
        exact Nat.lt_add_right _ hi
      rw [hs.shows i hlt]
      simp only [htext, List.getElem_append_left hi]
    refine { hs with outCur := rfl, shows := ?_, ended := fun _ => ?_ }
    · exact Shows.terminate (hshows.of_out rfl)
    · exact Function.update_self ..

theorem goes_cancel_none (hlevel : ¬ c.nestLevel ≥ 1) : Goes mangled n (.act maybeCancelLastSeparator) c true c :=
  .act fun _ _ hs => by
    rw [maybeCancelLastSeparator, if_neg fun hc => hlevel (by rw [← hs.nestLevel]; exact hc.1)]
    exact hs

theorem goes_increase : Goes mangled n (.act maybeIncreaseNestLevel) c true { c with nestLevel := nextLevel c.nestLevel } :=
  .act fun _ _ hs => by
    unfold maybeIncreaseNestLevel nextLevel
    rw [hs.nestLevel]
    split
    · exact { hs with nestLevel := rfl }
    · exact hs

end

end Glog.Demangle
