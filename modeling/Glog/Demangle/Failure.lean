import Glog.Demangle.Entry

/-! # What a failed parse function leaves behind

The convention of `demangle.cc` is that a function that fails does not change the state. Most functions
keep it. The exceptions raise a recursion level before they save the state, or consume a token and go on
without saving it; what each of them leaves is `failState`. -/

namespace Glog.Demangle
open Backtrack Backtrack.Parser

section
variable (mangled : CString)

def State.raiseLocal (s : State) : State := { s with localLevel := s.localLevel + 1 }
def State.raiseExpr (s : State) : State := { s with exprLevel := s.exprLevel + 1 }
def State.raiseArg (s : State) : State := { s with argLevel := s.argLevel + 1 }

def failLocalName (s : State) : State := if s.localLevel ≤ maxLevels then s.raiseLocal else s
def failTemplateArg (s : State) : State := if s.argLevel ≤ maxLevels then s.raiseArg else s
def failExpression (s : State) : State := if s.exprLevel ≤ maxLevels then s.raiseExpr else s
def failToken (token : Char) (s : State) : State := if s.char mangled 0 == token then s.advance 1 else s

/-- The state in which each function leaves the state `s` when it fails. -/
def failState : Func → State → State
  | .localName | .name | .encoding | .classEnumType => failLocalName
  | .templateArg | .oneOrMore .templateArg => failTemplateArg
  | .expression => failExpression
  | .number | .nvOffset => failToken mangled 'n'
  | .abiTag | .oneOrMore .abiTag => failToken mangled 'B'
  | .mangledName => fun s =>
    if s.char mangled 0 == '_' && s.char mangled 1 == 'Z' then failLocalName (s.advance 2) else s
  | _ => id

/-- The functions that never fail. -/
def accepts : Func → Bool
  | .namePrefix | .namePrefixLoop _ | .zeroOrMore _ => true
  | _ => false

end

section
variable {mangled : CString} {call : Func → P}

theorem tests_token {token : Char} : Tests (fun s => s.char mangled 0 == token) (State.advance · 1)
    (parseOneCharToken mangled token) :=
  .lookup fun _ _ => rfl

theorem leaves_token {token : Char} : Leaves id (parseOneCharToken mangled token) := .lookup

theorem tests_twoCharToken {first second : Char} :
    Tests (fun s => s.char mangled 0 == first && s.char mangled 1 == second) (State.advance · 2)
      (parseTwoCharToken mangled first second) :=
  .lookup fun _ _ => rfl

theorem leaves_number {k : Int → P} (hk : ∀ n, Accepts (k n)) :
    Leaves (failToken mangled 'n') (.reading (parseNumber mangled) k) := by
  refine .reading (fun s h => ?_) hk
  rw [parseNumber_of_not_isNumber (not_isNumber_of_none h)]
  exact behind_sign.symm

/-- A failure after the characters were counted is one of a negative length, which appends nothing. -/
theorem leaves_identifier (length : Int) : Leaves id (parseIdentifier mangled length) := fun s m s' m' h => by
  unfold parseIdentifier at h
  split at h
  · cases h
    rfl
  · rename_i hcount
    dsimp only at h
    split at h
    · rename_i hneg
      have hneg : length < 0 := by
        rcases hneg with hneg | hlen
        · exact hneg
        · have := atLeastNumCharsRemaining_length mangled (i := s.mangledCur) (n := length.toNat) (by
            simpa using fun h => hcount (Or.inr h))
          omega
      have hanon : identifierIsAnonymousNamespace mangled s length = false := by
        have : ¬ length > anonymousNamespacePrefix.length := by omega
        simp [identifierIsAnonymousNamespace, this]
      have happend : ¬ (s.append = true ∧ 0 < length) := by omega
      simp only [appendIdentifier, hanon, Bool.false_eq_true, if_false, maybeAppendWithLength, happend,
        Option.some.injEq, Prod.mk.injEq] at h
      exact h.2.1.symm
    · cases h

/-- A function that counts its recursion leaves the level raised, unless it stops at the limit. -/
theorem leaves_raised {level : State → Nat} {g : State → State} {f : State → Mem → State × Mem} {p : P}
    (hf : ∀ s m, (f s m).1 = g s) (hp : Leaves id p) :
    Leaves (fun s => if level s ≤ maxLevels then g s else s)
      (Parser.ensure (fun s => level s ≤ maxLevels) &&& Parser.act f &&& p) :=
  .of_eq (.guarded (Tests.both_act .ensure hf) hp) (funext fun s => by simp)

theorem leaves_oneOrMore {p q : P} {k : State → State} (hp : Leaves k p) (hq : Accepts q) :
    Leaves k (.branch p q (.ret false)) :=
  .both_accepts hp hq

/-- A function that never fails calls no other one at its end. -/
theorem accepts_body {f : Func} (haccepts : ∀ g, accepts g = true → Accepts (call g)) (hf : accepts f = true) :
    Accepts (body mangled call f) := by
  cases f with
  | namePrefix => exact haccepts (.namePrefixLoop false) rfl
  | namePrefixLoop hasSomething =>
    exact .both .act (.branch (.both .act (haccepts _ rfl)) (.both .act (.branch (haccepts _ rfl) .ret)))
  | zeroOrMore item => exact .branch (haccepts _ rfl) .ret
  | _ => cases hf

/-- What a body leaves, given what its calls leave. -/
theorem leaves_body (hcall : ∀ g, g ≠ .topLevelMangledName → Leaves (failState mangled g) (call g))
    (haccepts : ∀ g, accepts g = true → Accepts (call g)) (f : Func) (hf : f ≠ .topLevelMangledName) :
    Leaves (failState mangled f) (body mangled call f) := by
  cases f with
  | mangledName => exact .guarded tests_twoCharToken (hcall .encoding nofun)
  | encoding => exact .of_eq (.either (.either .retry (hcall .name nofun)) (hcall .specialName nofun))
  | name =>
    exact .of_eq (.either (.either (.either (hcall .nestedName nofun) (hcall .localName nofun)) .retry)
      (hcall .unscopedName nofun))
  | unscopedName => exact .of_eq (.either (hcall .unqualifiedName nofun) .retry)
  | unscopedTemplateName => exact .of_eq (.either (hcall .unscopedName nofun) (hcall .substitution nofun))
  | nestedName => exact .retry
  | namePrefix => exact (accepts_body (f := .namePrefix) haccepts rfl).leaves
  | namePrefixLoop hasSomething => exact (accepts_body (f := .namePrefixLoop hasSomething) haccepts rfl).leaves
  | unqualifiedName =>
    exact .of_eq (.either (.either (.either (hcall .operatorName nofun) (hcall .ctorDtorName nofun))
      (.both_accepts (hcall .sourceName nofun) .optional)) (.both_accepts (hcall .localSourceName nofun) .optional))
  | sourceName => exact .retry
  | localSourceName => exact .retry
  | number => exact leaves_number fun _ => .ret
  | floatNumber => exact .lookup
  | seqId => exact .lookup
  | identifier length => exact leaves_identifier length
  | abiTags => exact .retry
  | abiTag => exact .guarded tests_token (hcall .sourceName nofun)
  | operatorName =>
    exact .of_eq (.guarded .ensure (.either (.either .retry .retry) (.guarded .ensure .lookup)))
      (funext fun s => by simp [failState])
  | specialName =>
    exact .of_eq
      (.either (.either (.either (.either (.either (.either (.either (.either .retry .retry) .retry) .retry) .retry)
      .retry) .retry) .retry) .retry)
  | callOffset => exact .of_eq (.either .retry .retry)
  | nvOffset => exact hcall .number nofun
  | vOffset => exact .retry
  | ctorDtorName => exact .of_eq (.either .retry .retry)
  | type =>
    exact .of_eq (.either (.either (.either (.either (.either (.either .retry .retry) .retry) .retry) .retry) .retry)
      (hcall .templateParam nofun))
  | cvQualifiers => exact .lookup
  | builtinType => exact .of_eq (.either .lookup .retry)
  | functionType => exact .retry
  | bareFunctionType => exact .retry
  | classEnumType => exact hcall .name nofun
  | arrayType => exact .of_eq (.either .retry .retry)
  | pointerToMemberType => exact .retry
  | templateParam => exact .of_eq (.either (.both_accepts .lookup .act) .retry)
  | templateTemplateParam => exact .of_eq (.either (hcall .templateParam nofun) (hcall .substitution nofun))
  | templateArgs => exact .retry
  | templateArg =>
    exact leaves_raised (g := State.raiseArg) (fun _ _ => rfl) (.of_eq (.either (.either .retry .retry) .retry))
  | expression =>
    exact .of_eq (.either (.either (hcall .templateParam nofun) (hcall .exprPrimary nofun))
      (leaves_raised (g := State.raiseExpr) (fun _ _ => rfl)
        (.of_eq (.either (.either (.either (.either (.either .retry .retry) .retry) .retry) .retry) .retry))))
  | exprPrimary => exact .of_eq (.either (.either (.either .retry .retry) .retry) .retry)
  | localName => exact leaves_raised (g := State.raiseLocal) (fun _ _ => rfl) (.of_eq (.either .retry .retry))
  | discriminator => exact .retry
  | substitution => exact .of_eq (.either (.either (.both_accepts .lookup .act) .retry) .retry)
  | topLevelMangledName => exact absurd rfl hf
  | oneOrMore item =>
    exact .of_eq (leaves_oneOrMore (hcall item.func (by cases item <;> nofun)) (haccepts (.zeroOrMore item) rfl))
      (by cases item <;> rfl)
  | zeroOrMore item => exact (accepts_body (f := .zeroOrMore item) haccepts rfl).leaves

theorem parse_leaves (f : Func) (hf : f ≠ .topLevelMangledName) {s s' : State} {m m' : Mem}
    (h : parse mangled f s m = some (false, s', m')) : s' = failState mangled f s := by
  suffices all : ∀ {f s m b s' m'}, parse mangled f s m = some (b, s', m') →
      (accepts f = true → b = true) ∧ (f ≠ .topLevelMangledName → b = false → s' = failState mangled f s) from
    (all h).2 hf rfl
  intro f s m b s' m' h
  refine run_induct (P := fun f s _ b s' _ => (accepts f = true → b = true) ∧
    (f ≠ .topLevelMangledName → b = false → s' = failState mangled f s)) ?_ h
  intro call hcall f s m b s' m' h
  have haccepts : ∀ g, accepts g = true → Accepts (call g) := fun g hg _ _ _ _ _ h => (hcall g _ _ _ _ _ h).1 hg
  refine ⟨fun hf => accepts_body haccepts hf h, fun hf hb => ?_⟩
  subst hb
  exact leaves_body (fun g hg _ _ _ _ h => (hcall g _ _ _ _ _ h).2 hg rfl) haccepts f hf h

/-- The states that each function keeps when it fails. -/
def KeepsState (mangled : CString) : Func → State → Prop
  | .localName, s | .name, s | .encoding, s | .classEnumType, s => maxLevels < s.localLevel
  | .templateArg, s | .oneOrMore .templateArg, s => maxLevels < s.argLevel
  | .expression, s => maxLevels < s.exprLevel
  | .number, s | .nvOffset, s => s.char mangled 0 ≠ 'n'
  | .abiTag, s | .oneOrMore .abiTag, s => s.char mangled 0 ≠ 'B'
  | .mangledName, s => ¬ (s.char mangled 0 = '_' ∧ s.char mangled 1 = 'Z')
  | _, _ => True

theorem ite_raised_eq_iff {level : State → Nat} {g : State → State} (hg : ∀ s, level (g s) = level s + 1) (s : State) :
    (if level s ≤ maxLevels then g s else s) = s ↔ maxLevels < level s := by
  split
  · rename_i hle
    refine ⟨fun h => ?_, fun h => by omega⟩
    have := hg s
    rw [h] at this
    omega
  · rename_i hle
    exact ⟨fun _ => by omega, fun _ => rfl⟩

theorem failToken_eq_iff (token : Char) (s : State) : failToken mangled token s = s ↔ s.char mangled 0 ≠ token := by
  unfold failToken
  split
  · rename_i hc
    refine ⟨fun h => ?_, fun h => absurd (by simpa using hc) h⟩
    have := congrArg State.mangledCur h
    simp only [State.advance] at this
    omega
  · rename_i hc
    exact ⟨fun _ => by simpa using hc, fun _ => rfl⟩

theorem failMangledName_eq_iff (s : State) : failState mangled .mangledName s = s ↔ KeepsState mangled .mangledName s := by
  simp only [failState, KeepsState]
  split
  · rename_i hc
    refine ⟨fun h => ?_, fun h => absurd (by simpa using hc) h⟩
    have := congrArg State.mangledCur h
    unfold failLocalName at this
    split at this <;> simp only [State.advance, State.raiseLocal] at this <;> omega
  · rename_i hc
    exact ⟨fun _ => by simpa using hc, fun _ => rfl⟩

theorem failState_eq_iff (f : Func) (s : State) : failState mangled f s = s ↔ KeepsState mangled f s := by
  cases f with
  | localName => exact ite_raised_eq_iff (g := State.raiseLocal) (fun _ => rfl) s
  | name => exact ite_raised_eq_iff (g := State.raiseLocal) (fun _ => rfl) s
  | encoding => exact ite_raised_eq_iff (g := State.raiseLocal) (fun _ => rfl) s
  | classEnumType => exact ite_raised_eq_iff (g := State.raiseLocal) (fun _ => rfl) s
  | templateArg => exact ite_raised_eq_iff (g := State.raiseArg) (fun _ => rfl) s
  | expression => exact ite_raised_eq_iff (g := State.raiseExpr) (fun _ => rfl) s
  | number => exact failToken_eq_iff 'n' s
  | nvOffset => exact failToken_eq_iff 'n' s
  | abiTag => exact failToken_eq_iff 'B' s
  | mangledName => exact failMangledName_eq_iff s
  | oneOrMore item =>
    cases item with
    | abiTag => exact failToken_eq_iff 'B' s
    | type => exact ⟨fun _ => trivial, fun _ => rfl⟩
    | templateArg => exact ite_raised_eq_iff (g := State.raiseArg) (fun _ => rfl) s
  | _ => exact ⟨fun _ => trivial, fun _ => rfl⟩

/-- A function that fails leaves the state unchanged exactly where it neither raises a recursion level nor
    consumes a token before it saves the state. -/
theorem failure_atomic_iff (mangled : CString) (f : Func) (hf : f ≠ .topLevelMangledName) (s s' : State) (m m' : Mem)
    (h : parse mangled f s m = some (false, s', m')) : s' = s ↔ KeepsState mangled f s := by
  rw [parse_leaves f hf h]
  exact failState_eq_iff f s

theorem failure_atomic_iff_number :
    (initState none 0).advance 1 = initState none 0 ↔ KeepsState ⟨['n'], by decide⟩ .number (initState none 0) :=
  failure_atomic_iff ⟨['n'], by decide⟩ .number nofun (initState none 0) _ (initMem none) _ rfl

/-- `ParseLocalName` at a name that is not local fails with the level raised. -/
theorem not_failure_atomic : ¬ ∀ (mangled : CString) (f : Func) (s s' : State) (m m' : Mem),
    f ≠ .topLevelMangledName → parse mangled f s m = some (false, s', m') → s' = s := fun h => by
  have hlevel := h ⟨"3foo".toList, by decide⟩ .localName (initState none 0) _ (initMem none) _ nofun rfl
  exact absurd (congrArg State.localLevel hlevel) (by decide)

end

end Glog.Demangle
