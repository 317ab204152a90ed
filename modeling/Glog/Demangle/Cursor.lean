import Glog.Demangle.Frame
import Glog.Demangle.Signatures

/-! # Following the cursor alone

What is read and what is answered does not depend on the output, so the cursor can be followed from every state, also from
one whose output has overflowed. With the append mode off nothing else is left to be known. -/

namespace Glog.Demangle
open Backtrack Backtrack.Parser

structure Place where
  cur : Nat
  argLevel : Nat

structure At (outEnd : Nat) (outNull : Bool) (c : Place) (s : State) (_ : Mem) : Prop where
  cur : s.mangledCur = c.cur
  argLevel : s.argLevel = c.argLevel
  outEnd : s.outEnd = outEnd
  outNull : s.outNull = outNull

abbrev Moves (outEnd : Nat) (outNull : Bool) (p : P) (c : Place) (b : Bool) (c' : Place) : Prop :=
  Steps (At outEnd outNull) p c b c'

section
variable {mangled : CString} {n : Nat} {null b : Bool} {c c' c₁ : Place} {s s₁ : State} {m m₁ : Mem} {p : P} {r : List Char}

theorem rest_add (cur k : Nat) : mangled.rest (cur + k) = (mangled.rest cur).drop k := by
  rw [CString.rest, CString.rest, List.drop_drop]

theorem rest_succ {x : Char} {cur : Nat} (h : mangled.rest cur = x :: r) : mangled.rest (cur + 1) = r := by
  rw [rest_add, h]
  rfl

theorem At.char (h : At n null c s m) (k : Nat) : s.char mangled k = (mangled.rest c.cur).getD k '\x00' := by
  rw [char_eq_rest, h.cur]

theorem At.head (h : At n null c s m) : s.char mangled 0 = (mangled.rest c.cur).headD '\x00' := by
  rw [head_eq_rest, h.cur]

theorem At.advance (h : At n null c s m) (k : Nat) : At n null { c with cur := c.cur + k } (s.advance k) m :=
  ⟨congrArg (· + k) h.cur, h.argLevel, h.outEnd, h.outNull⟩

theorem At.of_outputOnly (h : At n null c s m) (hsame : OutputOnly (s, m) (s₁, m₁)) : At n null c s₁ m₁ where
  cur := hsame.mangledCur.trans h.cur
  argLevel := hsame.argLevel.trans h.argLevel
  outEnd := hsame.outEnd.trans h.outEnd
  outNull := hsame.outNull.trans h.outNull

theorem moves_retry_false {p : State → P} (h : ∀ s, Moves n null (p s) c false c₁) : Moves n null (.retry p) c false c :=
  .retry_false (fun s _ _ => h s) fun _ _ _ _ hs _ => { hs with }

theorem moves_call {f : Func} (h : Moves n null (body mangled (parse mangled) f) c b c') :
    Moves n null (parse mangled f) c b c' := fun s m hs => by
  obtain ⟨s', m', hrun, hs'⟩ := h (show At n null c s (noteCall f s m) from { hs with })
  exact ⟨s', m', (parse_eq f s m).trans hrun, hs'⟩

/-! ### Tokens -/

theorem moves_token {token : Char} (hrest : mangled.rest c.cur = token :: r) :
    Moves n null (parseOneCharToken mangled token) c true { c with cur := c.cur + 1 } :=
  .lookup (x := ()) (fun s m hs => by
    have hhead : s.char mangled 0 = (mangled.rest c.cur).headD '\x00' := hs.head
    simp [hhead, hrest]) fun s m hs => hs.advance 1

theorem moves_parseIf_false {t : Char → Bool} (h : t ((mangled.rest c.cur).headD '\x00') = false) :
    Moves n null (parseIf mangled t) c false c :=
  .lookup_none fun s m hs => by simp only [hs.head, h, Bool.false_eq_true, if_false]

theorem moves_twoCharToken_false {first second : Char}
    (h : (mangled.rest c.cur).headD '\x00' ≠ first ∨ (mangled.rest c.cur).getD 1 '\x00' ≠ second) :
    Moves n null (parseTwoCharToken mangled first second) c false c := by
  refine .lookup_none fun s m hs => ?_
  rw [hs.head, hs.char]
  rcases h with hfirst | hsecond
  · simp only [beq_false_of_ne hfirst, Bool.false_and, Bool.false_eq_true, if_false]
  · simp only [beq_false_of_ne hsecond, Bool.and_false, Bool.false_eq_true, if_false]

/-- A function that cannot start with the next character fails. -/
theorem moves_silent (f : Func) (h : starts ((mangled.rest c.cur).headD '\x00') f = false) (hf : f ≠ .topLevelMangledName) :
    Moves n null (parse mangled f) c false c := fun s m hs => by
  obtain ⟨⟨v, s', m'⟩, hrun⟩ := Option.isSome_iff_exists.mp (parse_isSome mangled f s m)
  obtain ⟨rfl, hcur, -⟩ := silent_parse f h hs.head hrun
  obtain ⟨cur, loc, exp, heq⟩ : ∃ cur loc exp, failState mangled f s =
      { s with mangledCur := cur, localLevel := loc, exprLevel := exp } := failState_eq f h s
  have hleft := (parse_leaves f hf hrun).trans heq
  subst hleft
  exact ⟨_, m', hrun, { hs with cur := hcur.trans hs.cur }⟩

/-! ### Types -/

theorem moves_rejects (c : Place) : Rejects (At n null) mangled ((mangled.rest c.cur).headD '\x00') c where
  retry h := moves_retry_false fun _ => h
  parseIf h := moves_parseIf_false h
  twoCharToken h := moves_twoCharToken_false (Or.inl h)
  silent f hf hne := moves_silent f hf hne
  call h := moves_call h

theorem moves_rejects_cons {x : Char} (hrest : mangled.rest c.cur = x :: r) : Rejects (At n null) mangled x c := by
  have h : Rejects (At n null) mangled ((mangled.rest c.cur).headD '\x00') c := moves_rejects c
  rwa [hrest] at h

/-- A type of one letter. -/
theorem moves_type_letter {x : Char} (hx : x ∈ builtinTypeList.map Prod.fst) (hrest : mangled.rest c.cur = x :: r) :
    Moves n null (parse mangled .type) c true { c with cur := c.cur + 1 } := by
  obtain ⟨p, hp⟩ := exists_builtinType hx
  have hlist : Moves n null (parseBuiltinTypeList mangled) c true { c with cur := c.cur + 1 } := by
    refine .lookup (x := p) (fun s m hs => ?_) fun s m hs => ?_
    · simp only [hs.head, hrest, List.headD_cons]
      exact hp
    · exact (hs.of_outputOnly (maybeAppend_outputOnly p.2.toList s m)).advance 1
  exact (moves_rejects_cons hrest).builtinType (letter_not_compound hx) (moves_call (.either_true hlist))

/-! ### The output -/

/-- With the append mode off the place is all that changes. -/
theorem goes_of_moves {f : Func} {c : Config} {k level : Nat} (hf : f.nests = false) (happend : c.append = false)
    (h : ∀ cur, mangled.rest cur = c.rest → Moves n false (parse mangled f) ⟨cur, c.argLevel⟩ b ⟨cur + k, level⟩) :
    Goes mangled n (parse mangled f) c b { c with rest := c.rest.drop k, argLevel := level } := fun s m hs => by
  obtain ⟨s', m', hrun, hs'⟩ :=
    h s.mangledCur hs.rest (show At n false _ s m from ⟨rfl, hs.argLevel, hs.outEnd, hs.outNull⟩)
  obtain ⟨b', s₁, m₁, hrun₁, hsame, hnest, houtput⟩ := parse_frames mangled f s m
  cases hrun.symm.trans hrun₁
  obtain ⟨hcur, -, -, hover, hout⟩ := houtput (hs.append.trans happend)
  have hrest : mangled.rest s'.mangledCur = c.rest.drop k := by
    rw [hs'.cur, rest_add, hs.rest]
  refine ⟨s', m', hrun, ?_⟩
  exact {
    rest := hrest
    outCur := hcur.trans hs.outCur
    outEnd := hs'.outEnd
    outNull := hs'.outNull
    overflowed := hover.trans hs.overflowed
    append := hsame.trans hs.append
    nestLevel := (hnest hf).trans hs.nestLevel
    argLevel := hs'.argLevel
    shows := hs.shows.of_out hout
    ended := fun he => by
      rw [show m'.out = m.out from hout]
      exact hs.ended he }

end

end Glog.Demangle
