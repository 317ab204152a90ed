import Glog.Demangle.Failure

/-! # The control flow does not read the output

What a parse function does depends on the mangled name and on the control fields of the state: the cursor,
the nest level, the append flag and the recursion levels. The output is only touched by appending text, by
cancelling a separator and by appending the remembered name again. A property of parsers that allows for
these and is kept by the control flow (`Congruent`) therefore holds of every parse function. -/

namespace Glog.Demangle
open Backtrack Backtrack.Parser

/-- The fields of the state that the control flow reads. -/
structure Control where
  mangledCur : Nat
  nestLevel : Int
  append : Bool
  localLevel : Nat
  exprLevel : Nat
  argLevel : Nat

def State.control (s : State) : Control where
  mangledCur := s.mangledCur
  nestLevel := s.nestLevel
  append := s.append
  localLevel := s.localLevel
  exprLevel := s.exprLevel
  argLevel := s.argLevel

/-- A state with the given control fields. -/
def State.ofControl (c : Control) : State where
  mangledCur := c.mangledCur
  outCur := 0
  outEnd := 0
  outNull := true
  prevName := none
  prevNameLength := -1
  nestLevel := c.nestLevel
  append := c.append
  overflowed := false
  localLevel := c.localLevel
  exprLevel := c.exprLevel
  argLevel := c.argLevel

def State.withControl (s : State) (c : Control) : State :=
  { s with
    mangledCur := c.mangledCur
    nestLevel := c.nestLevel
    append := c.append
    localLevel := c.localLevel
    exprLevel := c.exprLevel
    argLevel := c.argLevel }

theorem OutputOnly.control {a b : State × Mem} (h : OutputOnly a b) : b.1.control = a.1.control := by
  simp only [State.control, h.mangledCur, h.nestLevel, h.append, h.localLevel, h.exprLevel, h.argLevel]

theorem cvQualifier_mangledCur {mangled : CString} {c : Char} {s t : State} (h : s.mangledCur = t.mangledCur) :
    (if s.char mangled 0 = c then s.advance 1 else s).mangledCur =
      (if t.char mangled 0 = c then t.advance 1 else t).mangledCur := by
  unfold State.char
  rw [h]
  split <;> simp only [State.advance, h]

theorem cvQualifiers_mangledCur {mangled : CString} (s : State) :
    (cvQualifiers mangled s).mangledCur = (cvQualifiers mangled (.ofControl s.control)).mangledCur :=
  cvQualifier_mangledCur (cvQualifier_mangledCur (cvQualifier_mangledCur rfl))

theorem parseNumber_control (mangled : CString) (s : State) :
    (parseNumber mangled s).1 = (parseNumber mangled (.ofControl s.control)).1 ∧
    (parseNumber mangled s).2 = s.withControl (parseNumber mangled (.ofControl s.control)).2.control := by
  -- The number depends on the cursor alone.
  have hsame : IsNumber mangled (.ofControl s.control) ↔ IsNumber mangled s := Iff.rfl
  by_cases h : IsNumber mangled s
  · rw [parseNumber_of_isNumber h, parseNumber_of_isNumber (hsame.mpr h)]
    exact ⟨rfl, rfl⟩
  · rw [parseNumber_of_not_isNumber h, parseNumber_of_not_isNumber (mt hsame.mp h)]
    exact ⟨rfl, rfl⟩

theorem append_prevName (str : Str) (length : Int) (s : State) (m : Mem) :
    (append str length s m).1.prevName = s.prevName ∧ (append str length s m).1.prevNameLength = s.prevNameLength := by
  have hloop : ∀ (left i : Nat) (s : State) (m : Mem), (appendLoop str left i s m).1.prevName = s.prevName ∧
      (appendLoop str left i s m).1.prevNameLength = s.prevNameLength := fun left => by
    induction left with
    | zero => exact fun _ _ _ => ⟨rfl, rfl⟩
    | succ left ih =>
      intro i s m
      unfold appendLoop
      split
      · exact ih (i + 1) _ _
      · exact ⟨rfl, rfl⟩
  unfold append
  dsimp only
  split
  · exact ⟨rfl, rfl⟩
  · split <;> exact hloop ..

theorem appendSpace_prevName (str : Str) (s : State) (m : Mem) :
    (appendSpace str s m).1.prevName = s.prevName ∧ (appendSpace str s m).1.prevNameLength = s.prevNameLength := by
  unfold appendSpace
  dsimp only
  split
  · split
    · exact append_prevName ..
    · exact ⟨rfl, rfl⟩
  · exact ⟨rfl, rfl⟩

/-- The name that is remembered, if it is one. -/
theorem rememberName_eq (str : Str) (length : Int) (s : State) (m : Mem) : rememberName str length s m =
    (if isAlpha (m.read str 0).1 || (m.read str 0).1 == '_' then
      { s with prevName := some s.outCur, prevNameLength := length } else s, (m.read str 0).2) := by
  unfold rememberName
  dsimp only
  split <;> rfl

/-- Whether a name is remembered depends on its first character. -/
theorem text_prevNameLength {chars : List Char} {length : Int} {s : State} {m : Mem}
    (hactive : s.append = true ∧ 0 < length) :
    (maybeAppendWithLength (.text chars) length s m).1.prevNameLength =
      if isAlpha (chars.getD 0 '\x00') || chars.getD 0 '\x00' == '_' then length else s.prevNameLength := by
  rw [maybeAppendWithLength, if_pos hactive]
  dsimp only
  rw [(append_prevName ..).2, rememberName_eq]
  have hread : ∀ m : Mem, (m.read (.text chars) 0).1 = chars.getD 0 '\x00' := fun _ => rfl
  rw [hread]
  dsimp only
  split
  · rfl
  · exact (appendSpace_prevName ..).2

/-- A name that is replayed keeps its length. -/
theorem replayName_prevNameLength (s : State) (m : Mem) : (replayName s m).1.prevNameLength = s.prevNameLength := by
  unfold replayName maybeAppendWithLength
  split
  · dsimp only
    rw [(append_prevName ..).2, rememberName_eq]
    dsimp only
    split
    · rfl
    · exact (appendSpace_prevName ..).2
  · rfl

/-- The replay of a destructor name is that of a constructor name after the `~`, which is not remembered. -/
theorem replayDtorName_eq (s : State) (m : Mem) :
    replayDtorName s m = replayName (maybeAppend ['~'] s m).1 (maybeAppend ['~'] s m).2 := by
  have hname : (maybeAppend ['~'] s m).1.prevName = s.prevName ∧
      (maybeAppend ['~'] s m).1.prevNameLength = s.prevNameLength := by
    unfold maybeAppend maybeAppendWithLength
    split
    · split
      · exact append_prevName ..
      · exact ⟨rfl, rfl⟩
    · exact ⟨rfl, rfl⟩
  unfold replayDtorName replayName
  rw [hname.1, hname.2]

/-- A property of parsers that the control flow keeps, the cancelling of separators aside. -/
structure Congruous (J : P → Prop) : Prop where
  /-- Exhausted fuel. -/
  spent : J fun _ _ => none
  note : ∀ {f p}, J p → J fun s m => p s (noteCall f s m)
  branch : ∀ {p q r}, J p → J q → J r → J (.branch p q r)
  /-- A choice that the control fields make. -/
  choose : ∀ {p : Control → P}, (∀ c, J (p c)) → J fun s => p s.control s
  retry : ∀ {p : Control → P}, (∀ c, J (p c)) → J (.retry fun s => p s.control)
  /-- A step on the control fields alone. -/
  step : ∀ f : Control → Bool × Control, J fun s m => some ((f s.control).1, s.withControl (f s.control).2, m)
  text : ∀ chars, '\x00' ∉ chars → J (.act (maybeAppendWithLength (.text chars) chars.length))
  replay : J (.act replayName)

/-- `J` allows for the loop of `ParsePrefix`, which cancels a separator in the state that followed it: the alternatives in
    between leave it. -/
def Separates (J : P → Prop) : Prop := ∀ ⦃p q r⦄, J p → Leaves id p → J q → J r →
  J (.act maybeAppendSeparator &&& .branch p q (.act maybeCancelLastSeparator &&& r))

theorem Separates.and {J K : P → Prop} (hJ : Separates J) (hK : Separates K) : Separates fun p => J p ∧ K p :=
  fun _ _ _ hp hleft hq hr => ⟨hJ hp.1 hleft hq.1 hr.1, hK hp.2 hleft hq.2 hr.2⟩

/-- A run of the loop of `ParsePrefix`, up to where it goes on. -/
theorem separated_eq_some {p q r : P} {s s' : State} {m m' : Mem} {b : Bool} (hp : Leaves id p)
    (h : (Parser.act maybeAppendSeparator &&& Parser.branch p q (Parser.act maybeCancelLastSeparator &&& r)) s m =
      some (b, s', m')) :
    (∃ s₁ m₁, p (maybeAppendSeparator s m).1 (maybeAppendSeparator s m).2 = some (true, s₁, m₁) ∧
      q s₁ m₁ = some (b, s', m')) ∨
    ∃ m₁, p (maybeAppendSeparator s m).1 (maybeAppendSeparator s m).2 = some (false, (maybeAppendSeparator s m).1, m₁) ∧
      r (maybeCancelLastSeparator (maybeAppendSeparator s m).1 m₁).1
        (maybeCancelLastSeparator (maybeAppendSeparator s m).1 m₁).2 = some (b, s', m') := by
  change Parser.branch p q (Parser.act maybeCancelLastSeparator &&& r) (maybeAppendSeparator s m).1
    (maybeAppendSeparator s m).2 = some (b, s', m') at h
  obtain ⟨v, s₁, m₁, h₁, h₂⟩ := branch_eq_some h
  cases v with
  | true => exact Or.inl ⟨s₁, m₁, h₁, h₂⟩
  | false =>
    have hleft : s₁ = (maybeAppendSeparator s m).1 := hp h₁
    subst hleft
    exact Or.inr ⟨m₁, h₁, h₂⟩

/-- A property of parsers that the control flow keeps. -/
structure Congruent (J : P → Prop) : Prop extends Congruous J where
  cancel : J (.act maybeCancelLastSeparator)

namespace Congruous
variable {J : P → Prop} {mangled : CString} {p q : P}

/-! ### Combinators -/

protected theorem ret (hJ : Congruous J) (b : Bool) : J (.ret b) := hJ.step fun c => (b, c)

protected theorem both (hJ : Congruous J) (hp : J p) (hq : J q) : J (p &&& q) := hJ.branch hp hq (hJ.ret false)

protected theorem either (hJ : Congruous J) (hp : J p) (hq : J q) : J (p ||| q) := hJ.branch hp (hJ.ret true) hq

protected theorem optional (hJ : Congruous J) (hp : J p) : J (.optional p) := hJ.branch hp (hJ.ret true) (hJ.ret true)

protected theorem ensure (hJ : Congruous J) (c : Control → Bool) : J (.ensure fun s => c s.control) :=
  hJ.step fun a => (c a, a)

/-- A change of the control fields. -/
protected theorem set (hJ : Congruous J) (f : Control → Control) : J (.act fun s m => (s.withControl (f s.control), m)) :=
  hJ.step fun c => (true, f c)

/-- One change after another. -/
protected theorem act_comp (hJ : Congruous J) {f g : State → Mem → State × Mem} (hf : J (.act f)) (hg : J (.act g)) :
    J (.act fun s m => g (f s m).1 (f s m).2) := hJ.both hf hg

/-- What the control fields find decides. -/
protected theorem find (hJ : Congruous J) {α : Type} (find : Control → Option α) {k : α → P} {r : P}
    (hk : ∀ c a, find c = some a → J (k a)) (hr : J r) : J fun s m => match find s.control with
      | some a => k a s m
      | none => r s m := by
  have h := hJ.choose (p := fun c => (find c).elim r k) fun c => by
    cases ha : find c with
    | none => exact hr
    | some a => exact hk c a ha
  refine cast (congrArg J (funext fun s => funext fun m => ?_)) h
  cases hc : find s.control <;> rfl

protected theorem ite (hJ : Congruous J) (c : Control → Prop) [DecidablePred c] (hp : J p) (hq : J q) :
    J fun s m => if c s.control then p s m else q s m := by
  have h := hJ.choose (p := fun a => if c a then p else q) fun a => by
    split
    · exact hp
    · exact hq
  refine cast (congrArg J (funext fun s => funext fun m => ?_)) h
  split <;> rfl

protected theorem act_ite (hJ : Congruous J) (c : Control → Prop) [DecidablePred c] {f g : State → Mem → State × Mem}
    (hf : J (.act f)) (hg : J (.act g)) : J (.act fun s m => if c s.control then f s m else g s m) := by
  refine cast (congrArg J (funext fun s => funext fun m => ?_)) (hJ.ite c hf hg)
  by_cases hc : c s.control <;> simp only [Parser.act, hc, if_true, if_false]

protected theorem lookup (hJ : Congruous J) {α : Type} (find : Control → Option α) {f : α → State → Mem → State × Mem}
    (hf : ∀ c a, find c = some a → J (.act (f a))) : J (.lookup (fun s => find s.control) f) :=
  hJ.find find hf (hJ.ret false)

/-! ### Tokens -/

protected theorem advance (hJ : Congruous J) (n : Nat) : J (.act fun s m => (s.advance n, m)) :=
  hJ.set fun c => { c with mangledCur := c.mangledCur + n }

protected theorem parseIf (hJ : Congruous J) (c : Char → Bool) : J (parseIf mangled c) :=
  hJ.lookup (fun a => if c (mangled.get a.mangledCur) then some () else none) fun _ _ _ => hJ.advance 1

protected theorem token (hJ : Congruous J) {token : Char} : J (parseOneCharToken mangled token) := hJ.parseIf _

protected theorem twoCharToken (hJ : Congruous J) {first second : Char} : J (parseTwoCharToken mangled first second) :=
  hJ.lookup (fun a => if mangled.get a.mangledCur == first && mangled.get (a.mangledCur + 1) == second
    then some () else none) fun _ _ _ => hJ.advance 2

protected theorem charClass (hJ : Congruous J) {charClass : List Char} :
    J (parseCharClass mangled charClass) := hJ.parseIf _

protected theorem parseRun (hJ : Congruous J) (c : Char → Bool) : J (parseRun mangled c) :=
  hJ.lookup (fun a =>
    let count := ((mangled.rest a.mangledCur).takeWhile c).length
    if count = 0 then none else some count) fun _ count _ => hJ.advance count

/-! ### Output -/

protected theorem maybeAppend (hJ : Congruous J) {text : List Char} (h : '\x00' ∉ text := by decide) :
    J (.act (maybeAppend text)) :=
  hJ.act_ite (fun c => c.append = true) (hJ.text text h) (hJ.set id)

protected theorem appending (hJ : Congruous J) {text : String} (h : '\x00' ∉ text.toList := by decide) :
    J (appending text) := hJ.maybeAppend h

protected theorem separator (hJ : Congruous J) : J (.act maybeAppendSeparator) :=
  hJ.act_ite (fun c => c.nestLevel ≥ 1) hJ.maybeAppend (hJ.set id)

protected theorem increase (hJ : Congruous J) : J (.act maybeIncreaseNestLevel) :=
  hJ.act_ite (fun c => c.nestLevel > -1)
    (hJ.set fun c => { c with nestLevel := (c.nestLevel + 1).bmod 65536 }) (hJ.set id)

protected theorem appendOperator (hJ : Congruous J) {realName : List Char} (h : '\x00' ∉ realName) :
    J (.act (appendOperator realName)) := by
  have hword : J (.act (maybeAppend "operator".toList)) := hJ.maybeAppend
  unfold appendOperator
  split
  · exact hJ.act_comp (hJ.act_comp hword hJ.maybeAppend) (hJ.maybeAppend h)
  · exact hJ.act_comp hword (hJ.maybeAppend h)

protected theorem appendSubstitution (hJ : Congruous J) {realName : List Char} (h : '\x00' ∉ realName) :
    J (.act (appendSubstitution realName)) := by
  have hstd : J (.act (maybeAppend "std".toList)) := hJ.maybeAppend
  unfold appendSubstitution
  split
  · exact hstd
  · exact hJ.act_comp (hJ.act_comp hstd hJ.maybeAppend) (hJ.maybeAppend h)

theorem nul_not_mem_rest (i : Nat) : '\x00' ∉ mangled.rest i := fun h => mangled.nulFree (List.mem_of_mem_drop h)

/-- An identifier is appended whole. -/
protected theorem appendIdentifier (hJ : Congruous J) {length : Int} {i : Nat}
    (h : length.toNat ≤ (mangled.rest i).length) :
    J (.act (maybeAppendWithLength (.text ((mangled.rest i).take length.toNat)) length)) := by
  have htext := hJ.text ((mangled.rest i).take length.toNat) fun hmem => nul_not_mem_rest i (List.mem_of_mem_take hmem)
  rw [List.length_take_of_le h] at htext
  by_cases hpos : 0 < length
  · rwa [Int.toNat_of_nonneg (Int.le_of_lt hpos)] at htext
  · have hid := hJ.set id
    refine cast (congrArg (fun f => J (.act f)) (funext fun s => funext fun m => ?_)) hid
    rw [maybeAppendWithLength, if_neg fun hc => hpos hc.2]
    rfl

protected theorem identifier (hJ : Congruous J) (length : Int) : J (parseIdentifier mangled length) := by
  have h := hJ.choose (p := fun c =>
    if length = -1 ∨ atLeastNumCharsRemaining mangled c.mangledCur length.toNat = false then .ret false
    else .both
      (if identifierIsAnonymousNamespace mangled (State.ofControl c) length then
        .act (maybeAppend "(anonymous namespace)".toList)
      else .act (maybeAppendWithLength (.text ((mangled.rest c.mangledCur).take length.toNat)) length))
      (if length < 0 ∨ (mangled.rest c.mangledCur).length < length.toNat then .ret false
      else .act fun s m => (s.advance length.toNat, m))) fun c => by
    split
    · exact hJ.ret false
    · rename_i hmany
      have hle : length.toNat ≤ (mangled.rest c.mangledCur).length :=
        atLeastNumCharsRemaining_length mangled (by simpa using fun h => hmany (Or.inr h))
      refine hJ.both ?_ ?_
      · split
        · exact hJ.maybeAppend
        · exact hJ.appendIdentifier hle
      · split
        · exact hJ.ret false
        · exact hJ.advance length.toNat
  refine cast (congrArg J (funext fun s => funext fun m => ?_)) h
  have hanon : identifierIsAnonymousNamespace mangled (State.ofControl s.control) length =
      identifierIsAnonymousNamespace mangled s length := rfl
  have hcur : s.control.mangledCur = s.mangledCur := rfl
  rw [hanon, hcur]
  unfold parseIdentifier appendIdentifier
  split
  · rfl
  · by_cases hname : identifierIsAnonymousNamespace mangled s length = true <;>
      by_cases hshort : length < 0 ∨ (mangled.rest s.mangledCur).length < length.toNat <;>
      simp only [hname, hshort, if_true, if_false] <;> rfl

protected theorem replayDtorName (hJ : Congruous J) : J (.act replayDtorName) := by
  rw [funext fun s => funext fun m => replayDtorName_eq s m]
  exact hJ.act_comp hJ.maybeAppend hJ.replay

/-! ### Readings -/

protected theorem cvQualifier (hJ : Congruous J) (mangled : CString) (c : Char) :
    J (.act fun s m => (if s.char mangled 0 = c then s.advance 1 else s, m)) := by
  have h := hJ.act_ite (fun a => mangled.get a.mangledCur = c) (hJ.advance 1) (hJ.set id)
  refine cast (congrArg (fun f => J (.act f)) (funext fun s => funext fun m => ?_)) h
  split <;> simp_all [State.char, State.withControl, State.control]

protected theorem cvQualifiers (hJ : Congruous J) : J (parseCVQualifiers mangled) := by
  have h := hJ.lookup
    (fun a => if (cvQualifiers mangled (.ofControl a)).mangledCur > a.mangledCur then some () else none)
    fun _ _ _ => hJ.act_comp (hJ.act_comp (hJ.cvQualifier mangled 'r') (hJ.cvQualifier mangled 'V'))
      (hJ.cvQualifier mangled 'K')
  refine cast (congrArg (fun find => J (.lookup find fun _ s m => (cvQualifiers mangled s, m)))
    (funext fun s => ?_)) h
  rw [cvQualifiers_mangledCur s]
  rfl

protected theorem reading (hJ : Congruous J) {k : Int → P} (hk : ∀ n, J (k n)) : J (.reading (parseNumber mangled) k) := by
  have h := hJ.choose (p := fun c =>
    .both (.act fun s m => (s.withControl (parseNumber mangled (.ofControl c)).2.control, m))
      ((parseNumber mangled (.ofControl c)).1.elim (.ret false) k)) fun c => by
    refine hJ.both (hJ.set fun _ => _) ?_
    cases (parseNumber mangled (.ofControl c)).1 with
    | none => exact hJ.ret false
    | some n => exact hk n
  refine cast (congrArg J (funext fun s => funext fun m => ?_)) h
  obtain ⟨hval, hstate⟩ := parseNumber_control mangled s
  unfold Parser.reading Parser.both Parser.branch Parser.act
  simp only [← hval, ← hstate]
  rcases parseNumber mangled s with ⟨_ | n, s'⟩ <;> rfl

/-! ### Tables -/

protected theorem operatorList (hJ : Congruous J) : J (parseOperatorList mangled) :=
  hJ.lookup (fun c => operatorList.find? fun p : (Char × Char) × String =>
      mangled.get c.mangledCur == p.1.1 && mangled.get (c.mangledCur + 1) == p.1.2)
    fun _ p hp =>
      have hall : ∀ p ∈ operatorList, '\x00' ∉ p.2.toList := by decide
      hJ.act_comp (hJ.appendOperator (hall p (List.mem_of_find?_eq_some hp))) (hJ.advance 2)

protected theorem builtinTypeList (hJ : Congruous J) : J (parseBuiltinTypeList mangled) :=
  hJ.lookup (fun c => builtinTypeList.find? fun p : Char × String => mangled.get c.mangledCur == p.1)
    fun _ p hp =>
      have hall : ∀ p ∈ builtinTypeList, '\x00' ∉ p.2.toList := by decide
      hJ.act_comp (hJ.maybeAppend (hall p (List.mem_of_find?_eq_some hp))) (hJ.advance 1)

protected theorem substitutionList (hJ : Congruous J) : J (parseSubstitutionList mangled) :=
  hJ.lookup (fun c => substitutionList.find? fun p : Char × String => mangled.get c.mangledCur == p.1)
    fun _ p hp =>
      have hall : ∀ p ∈ substitutionList, '\x00' ∉ p.2.toList := by decide
      hJ.act_comp (hJ.appendSubstitution (hall p (List.mem_of_find?_eq_some hp))) (hJ.advance 1)

protected theorem versionSuffix (hJ : Congruous J) :
    J (.act fun s m => maybeAppend (mangled.rest s.mangledCur) s m) :=
  hJ.choose (p := fun c => .act (maybeAppend (mangled.rest c.mangledCur))) fun _ => hJ.maybeAppend (nul_not_mem_rest _)

/-! ### State changes -/

protected theorem enterNestedName (hJ : Congruous J) : J enterNestedName := hJ.set fun c => { c with nestLevel := 0 }

protected theorem leaveNestedName (hJ : Congruous J) (n : Int) : J (leaveNestedName n) :=
  hJ.set fun c => { c with nestLevel := n }

protected theorem disableAppend (hJ : Congruous J) : J disableAppend := hJ.set fun c => { c with append := false }

protected theorem restoreAppend (hJ : Congruous J) (b : Bool) : J (restoreAppend b) :=
  hJ.set fun c => { c with append := b }

protected theorem raiseArgLevel (hJ : Congruous J) : J raiseArgLevel :=
  hJ.set fun c => { c with argLevel := c.argLevel + 1 }

protected theorem lowerArgLevel (hJ : Congruous J) : J lowerArgLevel :=
  hJ.set fun c => { c with argLevel := c.argLevel - 1 }

protected theorem raiseExprLevel (hJ : Congruous J) : J raiseExprLevel :=
  hJ.set fun c => { c with exprLevel := c.exprLevel + 1 }

protected theorem lowerExprLevel (hJ : Congruous J) : J lowerExprLevel :=
  hJ.set fun c => { c with exprLevel := c.exprLevel - 1 }

protected theorem raiseLocalLevel (hJ : Congruous J) : J raiseLocalLevel :=
  hJ.set fun c => { c with localLevel := c.localLevel + 1 }

protected theorem lowerLocalLevel (hJ : Congruous J) : J lowerLocalLevel :=
  hJ.set fun c => { c with localLevel := c.localLevel - 1 }

/-! ### Parse functions -/

/-- A retry that does not read the copy. -/
protected theorem attempt (hJ : Congruous J) (hp : J p) : J (.retry fun _ => p) := hJ.retry fun _ => hp

protected theorem body (hJ : Congruous J) {call : Func → P} (hcall : ∀ g, J (call g))
    (hloop : ∀ hasSomething, J (parsePrefixLoop call hasSomething)) (f : Func) : J (body mangled call f) := by
  cases f with
  | mangledName => exact hJ.both hJ.twoCharToken (hcall .encoding)
  | encoding =>
    exact hJ.either (hJ.either (hJ.attempt <| hJ.both (hcall .name) (hcall .bareFunctionType))
      (hcall .name)) (hcall .specialName)
  | name =>
    exact hJ.either (hJ.either (hJ.either (hcall .nestedName) (hcall .localName))
      (hJ.attempt <| hJ.both (hcall .unscopedTemplateName) (hcall .templateArgs)))
      (hcall .unscopedName)
  | unscopedName =>
    exact hJ.either (hcall .unqualifiedName)
      (hJ.attempt <| hJ.both (hJ.both hJ.twoCharToken (hJ.appending)) (hcall .unqualifiedName))
  | unscopedTemplateName => exact hJ.either (hcall .unscopedName) (hcall .substitution)
  | nestedName =>
    exact hJ.retry (p := fun copy => parseOneCharToken mangled 'N' &&& enterNestedName &&&
      .optional (call .cvQualifiers) &&& call .namePrefix &&& leaveNestedName copy.nestLevel &&&
      parseOneCharToken mangled 'E') fun _ => hJ.both (hJ.both (hJ.both (hJ.both (hJ.both hJ.token hJ.enterNestedName)
      (hJ.optional (hcall .cvQualifiers))) (hcall .namePrefix)) (hJ.leaveNestedName _)) hJ.token
  | namePrefix => exact hcall (.namePrefixLoop false)
  | namePrefixLoop hasSomething => exact hloop hasSomething
  | unqualifiedName =>
    exact hJ.either (hJ.either (hJ.either (hcall .operatorName) (hcall .ctorDtorName))
      (hJ.both (hcall .sourceName) (hJ.optional (hcall .abiTags))))
      (hJ.both (hcall .localSourceName) (hJ.optional (hcall .abiTags)))
  | sourceName =>
    exact hJ.attempt <| hJ.reading fun length => hcall (.identifier length)
  | localSourceName =>
    exact hJ.attempt <| hJ.both (hJ.both hJ.token (hcall .sourceName))
      (hJ.optional (hcall .discriminator))
  | number => exact hJ.reading fun _ => hJ.ret true
  | floatNumber => exact hJ.parseRun _
  | seqId => exact hJ.parseRun _
  | identifier length => exact hJ.identifier length
  | abiTags =>
    exact hJ.retry (p := fun copy => disableAppend &&& call (.oneOrMore .abiTag) &&&
      restoreAppend copy.append) fun _ => hJ.both (hJ.both hJ.disableAppend (hcall (.oneOrMore .abiTag)))
      (hJ.restoreAppend _)
  | abiTag => exact hJ.both hJ.token (hcall .sourceName)
  | operatorName =>
    exact hJ.both (hJ.ensure fun c => atLeastNumCharsRemaining mangled c.mangledCur 2)
      (hJ.either (hJ.either
        (hJ.retry (p := fun copy => parseTwoCharToken mangled 'c' 'v' &&& appending "operator " &&&
          enterNestedName &&& call .type &&& leaveNestedName copy.nestLevel) fun _ =>
          hJ.both (hJ.both (hJ.both (hJ.both hJ.twoCharToken (hJ.appending)) hJ.enterNestedName) (hcall .type))
            (hJ.leaveNestedName _))
        (hJ.attempt <| hJ.both (hJ.both hJ.token hJ.charClass) (hcall .sourceName)))
        (hJ.both (hJ.ensure fun c => isLower (mangled.get c.mangledCur) && isAlpha (mangled.get (c.mangledCur + 1)))
          hJ.operatorList))
  | specialName =>
    exact hJ.either (hJ.either (hJ.either (hJ.either (hJ.either (hJ.either (hJ.either (hJ.either
      (hJ.attempt <| hJ.both (hJ.both hJ.token hJ.charClass) (hcall .type))
      (hJ.attempt <| hJ.both (hJ.both (hJ.both hJ.twoCharToken (hcall .callOffset)) (hcall .callOffset))
        (hcall .encoding))) (hJ.attempt <| hJ.both hJ.twoCharToken (hcall .name)))
      (hJ.attempt <| hJ.both (hJ.both hJ.token (hcall .callOffset)) (hcall .encoding)))
      (hJ.retry (p := fun copy => parseTwoCharToken mangled 'T' 'C' &&& call .type &&& call .number &&&
        parseOneCharToken mangled '_' &&& disableAppend &&& call .type &&& restoreAppend copy.append) fun _ =>
        hJ.both (hJ.both (hJ.both (hJ.both (hJ.both (hJ.both hJ.twoCharToken (hcall .type))
        (hcall .number)) hJ.token) hJ.disableAppend) (hcall .type))
        (hJ.restoreAppend _)))
      (hJ.attempt <| hJ.both (hJ.both hJ.token hJ.charClass) (hcall .type)))
      (hJ.attempt <| hJ.both hJ.twoCharToken (hcall .name)))
      (hJ.attempt <| hJ.both hJ.twoCharToken (hcall .encoding)))
      (hJ.attempt <| hJ.both (hJ.both (hJ.both hJ.token hJ.charClass) (hcall .callOffset))
        (hcall .encoding))
  | callOffset =>
    exact hJ.either (hJ.attempt <| hJ.both (hJ.both hJ.token (hcall .nvOffset)) hJ.token)
      (hJ.attempt <| hJ.both (hJ.both hJ.token (hcall .vOffset)) hJ.token)
  | nvOffset => exact hcall .number
  | vOffset => exact hJ.attempt <| hJ.both (hJ.both (hcall .number) hJ.token) (hcall .number)
  | ctorDtorName =>
    exact hJ.either
      (hJ.attempt <| hJ.both (hJ.both hJ.token hJ.charClass) hJ.replay)
      (hJ.attempt <| hJ.both (hJ.both hJ.token hJ.charClass) hJ.replayDtorName)
  | type =>
    exact hJ.either (hJ.either (hJ.either (hJ.either (hJ.either (hJ.either
      (hJ.attempt <| hJ.both (hcall .cvQualifiers) (hcall .type))
      (hJ.attempt <| hJ.both hJ.charClass (hcall .type)))
      (hJ.attempt <| hJ.both hJ.twoCharToken (hcall .type)))
      (hJ.attempt <| hJ.both (hJ.both (hJ.both hJ.token hJ.charClass) (hcall .expression)) hJ.token))
      (hJ.attempt <| hJ.both (hJ.both hJ.token (hcall .sourceName)) (hcall .type)))
      (hJ.attempt <| hJ.either (hJ.either (hJ.either (hJ.either (hJ.either (hJ.either (hcall .builtinType)
        (hcall .functionType)) (hcall .classEnumType)) (hcall .arrayType))
        (hcall .pointerToMemberType)) (hcall .substitution))
        (hJ.both (hcall .templateTemplateParam) (hcall .templateArgs)))) (hcall .templateParam)
  | cvQualifiers => exact hJ.cvQualifiers
  | builtinType =>
    exact hJ.either hJ.builtinTypeList
      (hJ.attempt <| hJ.both hJ.token (hcall .sourceName))
  | functionType =>
    exact hJ.attempt <| hJ.both (hJ.both (hJ.both hJ.token (hJ.optional hJ.token))
      (hcall .bareFunctionType)) hJ.token
  | bareFunctionType =>
    exact hJ.retry (p := fun copy => disableAppend &&& call (.oneOrMore .type) &&&
      restoreAppend copy.append &&& appending "()") fun _ =>
        hJ.both (hJ.both (hJ.both hJ.disableAppend (hcall (.oneOrMore .type)))
      (hJ.restoreAppend _)) (hJ.appending)
  | classEnumType => exact hcall .name
  | arrayType =>
    exact hJ.either
      (hJ.attempt <| hJ.both (hJ.both (hJ.both hJ.token (hcall .number)) hJ.token) (hcall .type))
      (hJ.attempt <| hJ.both (hJ.both (hJ.both hJ.token (hJ.optional (hcall .expression))) hJ.token)
        (hcall .type))
  | pointerToMemberType =>
    exact hJ.attempt <| hJ.both (hJ.both hJ.token (hcall .type)) (hcall .type)
  | templateParam =>
    exact hJ.either (hJ.both hJ.twoCharToken (hJ.appending))
      (hJ.attempt <| hJ.both (hJ.both (hJ.both hJ.token (hcall .number)) hJ.token) (hJ.appending))
  | templateTemplateParam => exact hJ.either (hcall .templateParam) (hcall .substitution)
  | templateArgs =>
    exact hJ.retry (p := fun copy => disableAppend &&& parseOneCharToken mangled 'I' &&&
      call (.oneOrMore .templateArg) &&& parseOneCharToken mangled 'E' &&& restoreAppend copy.append &&&
      appending "<>") fun _ => hJ.both (hJ.both (hJ.both (hJ.both (hJ.both hJ.disableAppend hJ.token)
      (hcall (.oneOrMore .templateArg))) hJ.token) (hJ.restoreAppend _)) (hJ.appending)
  | templateArg =>
    exact hJ.both (hJ.both (hJ.ensure fun c => c.argLevel ≤ maxLevels) hJ.raiseArgLevel)
      (hJ.either (hJ.either
        (hJ.attempt <| hJ.both (hJ.both (hJ.both (hJ.either hJ.token hJ.token)
          (hcall (.zeroOrMore .templateArg))) hJ.token) hJ.lowerArgLevel)
        (hJ.attempt <| hJ.both (hJ.either (hcall .type) (hcall .exprPrimary)) hJ.lowerArgLevel))
        (hJ.attempt <| hJ.both (hJ.both (hJ.both hJ.token (hcall .expression)) hJ.token)
          hJ.lowerArgLevel))
  | expression =>
    exact hJ.either (hJ.either (hcall .templateParam) (hcall .exprPrimary))
      (hJ.both (hJ.both (hJ.ensure fun c => c.exprLevel ≤ maxLevels) hJ.raiseExprLevel)
        (hJ.either (hJ.either (hJ.either (hJ.either (hJ.either
          (hJ.attempt <| hJ.both (hJ.both (hJ.both (hJ.both (hcall .operatorName) (hcall .expression))
            (hcall .expression)) (hcall .expression)) hJ.lowerExprLevel)
          (hJ.attempt <| hJ.both (hJ.both (hJ.both (hcall .operatorName) (hcall .expression))
            (hcall .expression)) hJ.lowerExprLevel))
          (hJ.attempt <| hJ.both (hJ.both (hcall .operatorName) (hcall .expression))
            hJ.lowerExprLevel)) (hJ.attempt <| hJ.both hJ.twoCharToken (hcall .type)))
          (hJ.attempt <| hJ.both (hJ.both (hJ.both (hJ.both hJ.twoCharToken (hcall .type))
            (hcall .unqualifiedName)) (hcall .templateArgs)) hJ.lowerExprLevel))
          (hJ.attempt <| hJ.both (hJ.both (hJ.both hJ.twoCharToken (hcall .type)) (hcall .unqualifiedName))
            hJ.lowerExprLevel)))
  | exprPrimary =>
    exact hJ.either (hJ.either (hJ.either
      (hJ.attempt <| hJ.both (hJ.both (hJ.both hJ.token (hcall .type)) (hcall .number)) hJ.token)
      (hJ.attempt <| hJ.both (hJ.both (hJ.both hJ.token (hcall .type)) (hcall .floatNumber)) hJ.token))
      (hJ.attempt <| hJ.both (hJ.both hJ.token (hcall .mangledName)) hJ.token))
      (hJ.attempt <| hJ.both (hJ.both hJ.twoCharToken (hcall .encoding)) hJ.token)
  | localName =>
    exact hJ.both (hJ.both (hJ.ensure fun c => c.localLevel ≤ maxLevels) hJ.raiseLocalLevel)
      (hJ.either
        (hJ.attempt <| hJ.both (hJ.both (hJ.both (hJ.both (hJ.both (hJ.both hJ.token (hcall .encoding)) hJ.token)
          (hJ.appending)) (hcall .name)) (hJ.optional (hcall .discriminator)))
          hJ.lowerLocalLevel)
        (hJ.attempt <| hJ.both (hJ.both (hJ.both (hJ.both hJ.token (hcall .encoding)) hJ.twoCharToken)
          (hJ.optional (hcall .discriminator))) hJ.lowerLocalLevel))
  | discriminator => exact hJ.attempt <| hJ.both hJ.token (hcall .number)
  | substitution =>
    exact hJ.either (hJ.either (hJ.both hJ.twoCharToken (hJ.appending))
      (hJ.attempt <| hJ.both (hJ.both (hJ.both hJ.token (hcall .seqId)) hJ.token) (hJ.appending)))
      (hJ.attempt <| hJ.both hJ.token hJ.substitutionList)
  | topLevelMangledName =>
    exact hJ.both (hcall .mangledName)
      (hJ.branch (hJ.ensure fun c => mangled.get c.mangledCur != '\x00')
        (hJ.either (hJ.ensure fun c => isFunctionCloneSuffix mangled.length (mangled.rest c.mangledCur))
          (hJ.both (hJ.ensure fun c => mangled.get c.mangledCur == '@') hJ.versionSuffix))
        (hJ.ret true))
  | oneOrMore item => exact hJ.branch (hcall item.func) (hcall (.zeroOrMore item)) (hJ.ret false)
  | zeroOrMore item => exact hJ.branch (hcall item.func) (hcall (.zeroOrMore item)) (hJ.ret true)

protected theorem and {K : P → Prop} (hJ : Congruous J) (hK : Congruous K) : Congruous fun p => J p ∧ K p where
  spent := ⟨hJ.spent, hK.spent⟩
  note hp := ⟨hJ.note hp.1, hK.note hp.2⟩
  branch hp hq hr := ⟨hJ.branch hp.1 hq.1 hr.1, hK.branch hp.2 hq.2 hr.2⟩
  choose hp := ⟨hJ.choose fun c => (hp c).1, hK.choose fun c => (hp c).2⟩
  retry hp := ⟨hJ.retry fun c => (hp c).1, hK.retry fun c => (hp c).2⟩
  step f := ⟨hJ.step f, hK.step f⟩
  text chars hnul := ⟨hJ.text chars hnul, hK.text chars hnul⟩
  replay := ⟨hJ.replay, hK.replay⟩

protected theorem parse (hJ : Congruous J) (hseparates : Separates J) (mangled : CString) (f : Func) :
    J (parse mangled f) := by
  have heval : ∀ n, (∀ g, J (eval noteCall (body mangled) n g)) ∧
      (∀ g, accepts g = true → Accepts (eval noteCall (body mangled) n g)) ∧
      ∀ g, g ≠ .topLevelMangledName → Leaves (failState mangled g) (eval noteCall (body mangled) n g) := fun n => by
    induction n with
    | zero =>
      refine ⟨fun _ => hJ.spent, fun _ _ _ _ _ _ _ h => ?_, fun _ _ _ _ _ _ h => ?_⟩
      · cases h
      · cases h
    | succ n ih =>
      obtain ⟨hcall, haccepts, hleaves⟩ := ih
      refine ⟨fun g => hJ.note (hJ.body hcall (fun hasSomething => ?_) g),
        fun g hg s m b s' m' h => accepts_body haccepts hg h,
        fun g hg s m s' m' h => leaves_body hleaves haccepts g hg h⟩
      have hlast : Leaves id (eval noteCall (body mangled) n .templateParam |||
          eval noteCall (body mangled) n .substitution ||| eval noteCall (body mangled) n .unscopedName) :=
        .of_eq
          (.either (.either (hleaves .templateParam nofun) (hleaves .substitution nofun)) (hleaves .unscopedName nofun))
      exact hseparates (hJ.either (hJ.either (hcall .templateParam) (hcall .substitution)) (hcall .unscopedName)) hlast
        (hJ.both hJ.increase (hcall (.namePrefixLoop true)))
        (hJ.branch (hJ.both (hJ.ensure fun _ => hasSomething) (hcall .templateArgs)) (hcall .namePrefix) (hJ.ret true))
  exact hJ.choose (p := fun c => eval noteCall (body mangled)
    (cost mangled.length width (rank f) c.mangledCur + 1) f) fun _ => (heval _).1 f

end Congruous

protected theorem Congruent.parse {J : P → Prop} (hJ : Congruent J) (mangled : CString) (f : Func) : J (parse mangled f) :=
  hJ.toCongruous.parse (fun _ _ _ hp _ hq hr => hJ.both hJ.separator (hJ.branch hp hq (hJ.both hJ.cancel hr))) mangled f

end Glog.Demangle
