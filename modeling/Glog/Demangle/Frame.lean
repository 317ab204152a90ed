import Glog.Backtrack.Relates
import Glog.Demangle.Entry
import Glog.Demangle.Output

/-! # What the parse functions put back

Some parse functions turn the append mode off for a while, and some enter a nested name. Whatever they do in between, the
append mode and the nest level are in the end what they were, and while the append mode is off the output is left alone. -/

namespace Glog.Demangle
open Backtrack Backtrack.Parser

/-- The output, as the state and the buffer have it. -/
structure SameOutput (a b : State × Mem) : Prop where
  outCur : b.1.outCur = a.1.outCur
  prevName : b.1.prevName = a.1.prevName
  prevNameLength : b.1.prevNameLength = a.1.prevNameLength
  overflowed : b.1.overflowed = a.1.overflowed
  out : b.2.out = a.2.out

/-- The append mode is kept, and so is the nest level, unless `nested`; without the append mode the output is kept. -/
structure Framed (nested : Bool) (a b : State × Mem) : Prop where
  append : b.1.append = a.1.append
  nestLevel : nested = false → b.1.nestLevel = a.1.nestLevel
  output : a.1.append = false → SameOutput a b

/-- The functions that change the nest level. -/
def Func.nests : Func → Bool
  | .namePrefix | .namePrefixLoop _ => true
  | _ => false

section
variable {a b c : State × Mem} {s : State} {m : Mem} {nested : Bool} {p q : P}

theorem SameOutput.refl (a : State × Mem) : SameOutput a a := ⟨rfl, rfl, rfl, rfl, rfl⟩

theorem SameOutput.trans (h : SameOutput a b) (h' : SameOutput b c) : SameOutput a c where
  outCur := h'.outCur.trans h.outCur
  prevName := h'.prevName.trans h.prevName
  prevNameLength := h'.prevNameLength.trans h.prevNameLength
  overflowed := h'.overflowed.trans h.overflowed
  out := h'.out.trans h.out

instance : IsPreorder (State × Mem) (Framed nested) where
  refl a := ⟨rfl, fun _ => rfl, fun _ => SameOutput.refl a⟩
  trans a b c h h' := by
    refine ⟨h'.append.trans h.append, fun hn => (h'.nestLevel hn).trans (h.nestLevel hn), fun hoff => ?_⟩
    exact (h.output hoff).trans (h'.output (h.append.trans hoff))

/-- Only a parse function that is not framed itself may leave the nest level changed. -/
theorem Framed.mono (h : Framed false a b) : Framed nested a b := ⟨h.append, fun _ => h.nestLevel rfl, h.output⟩

abbrev Frames (nested : Bool) (p : P) : Prop := Relates (Framed nested) p

theorem frames_of_frames (h : Frames false p) : Frames nested p := h.mono fun _ _ => Framed.mono

/-! ### Output -/

theorem framed_of_outputOnly (h : OutputOnly a b) (hoff : a.1.append = false → b = a) : Framed nested a b := by
  refine ⟨h.append, fun _ => h.nestLevel, fun happend => ?_⟩
  rw [hoff happend]
  exact SameOutput.refl a

theorem framed_maybeAppendWithLength (str : Str) (length : Int) (s : State) (m : Mem) :
    Framed nested (s, m) (maybeAppendWithLength str length s m) := by
  refine framed_of_outputOnly (maybeAppendWithLength_outputOnly str length s m) fun hoff => if_neg ?_
  rintro ⟨hon, -⟩
  cases hoff.symm.trans hon

theorem framed_maybeAppend (text : List Char) (s : State) (m : Mem) : Framed nested (s, m) (maybeAppend text s m) := by
  unfold maybeAppend
  split
  · exact framed_maybeAppendWithLength ..
  · exact refl_of (Framed nested) (s, m)

theorem framed_maybeAppendSeparator (s : State) (m : Mem) : Framed nested (s, m) (maybeAppendSeparator s m) := by
  unfold maybeAppendSeparator
  split
  · exact framed_maybeAppend ..
  · exact refl_of (Framed nested) (s, m)

theorem framed_maybeCancelLastSeparator (s : State) (m : Mem) : Framed nested (s, m) (maybeCancelLastSeparator s m) := by
  refine framed_of_outputOnly (maybeCancelLastSeparator_outputOnly s m) fun hoff => if_neg ?_
  rintro ⟨-, hon, -⟩
  cases hoff.symm.trans hon

theorem framed_maybeIncreaseNestLevel (s : State) (m : Mem) : Framed true (s, m) (maybeIncreaseNestLevel s m) := by
  unfold maybeIncreaseNestLevel
  split
  · exact ⟨rfl, nofun, fun _ => ⟨rfl, rfl, rfl, rfl, rfl⟩⟩
  · exact refl_of (Framed true) (s, m)

theorem framed_advance (n : Nat) (s : State) (m : Mem) : Framed nested (s, m) (s.advance n, m) :=
  ⟨rfl, fun _ => rfl, fun _ => ⟨rfl, rfl, rfl, rfl, rfl⟩⟩

theorem framed_appendOperator (realName : List Char) (s : State) (m : Mem) :
    Framed nested (s, m) (appendOperator realName s m) := by
  unfold appendOperator
  have hword := @framed_maybeAppend nested "operator".toList s m
  dsimp only
  split
  · exact trans_of (Framed nested) (trans_of (Framed nested) hword (framed_maybeAppend ..)) (framed_maybeAppend ..)
  · exact trans_of (Framed nested) hword (framed_maybeAppend ..)

theorem framed_appendSubstitution (realName : List Char) (s : State) (m : Mem) :
    Framed nested (s, m) (appendSubstitution realName s m) := by
  unfold appendSubstitution
  have hstd := @framed_maybeAppend nested "std".toList s m
  dsimp only
  split
  · exact hstd
  · exact trans_of (Framed nested) (trans_of (Framed nested) hstd (framed_maybeAppend ..)) (framed_maybeAppend ..)

theorem framed_replayDtorName (s : State) (m : Mem) : Framed nested (s, m) (replayDtorName s m) :=
  trans_of (Framed nested) (framed_maybeAppend ..) (framed_maybeAppendWithLength ..)

/-! ### Tokens -/

variable {mangled : CString}

theorem frames_parseIf (t : Char → Bool) : Frames nested (parseIf mangled t) := .lookup fun _ s m => framed_advance 1 s m

theorem frames_token {token : Char} : Frames nested (parseOneCharToken mangled token) := frames_parseIf _

theorem frames_twoCharToken {first second : Char} : Frames nested (parseTwoCharToken mangled first second) :=
  .lookup fun _ s m => framed_advance 2 s m

theorem frames_charClass {charClass : List Char} : Frames nested (parseCharClass mangled charClass) := frames_parseIf _

theorem frames_parseRun (t : Char → Bool) : Frames nested (parseRun mangled t) :=
  .lookup fun count s m => framed_advance count s m

theorem frames_appending {text : String} : Frames nested (appending text) := .act (framed_maybeAppend _)

theorem framed_parseNumber (s : State) (m : Mem) : Framed nested (s, m) ((parseNumber mangled s).2, m) := by
  obtain ⟨hle, -, -⟩ := @parseNumber_moves mangled s
  obtain ⟨k, heq⟩ : ∃ k, (parseNumber mangled s).2 = s.advance k := by
    refine ⟨(parseNumber mangled s).2.mangledCur - s.mangledCur, ?_⟩
    rw [State.advance, Nat.add_sub_cancel' hle]
    by_cases h : IsNumber mangled s
    · rw [parseNumber_of_isNumber h]
    · rw [parseNumber_of_not_isNumber h]
  rw [heq]
  exact framed_advance k s m

theorem frames_reading {k : Int → P} (hk : ∀ n, Frames nested (k n)) : Frames nested (.reading (parseNumber mangled) k) :=
  .reading framed_parseNumber hk

theorem frames_identifier (length : Int) : Frames nested (parseIdentifier mangled length) := fun s m b s' m' h => by
  have happended : Framed nested (s, m) (appendIdentifier mangled length s m) := by
    unfold appendIdentifier
    split
    · exact framed_maybeAppend ..
    · exact framed_maybeAppendWithLength ..
  unfold parseIdentifier at h
  split at h
  · cases h
    exact refl_of (Framed nested) (s, m)
  · dsimp only at h
    generalize appendIdentifier mangled length s m = r at h happended
    split at h
    · cases h
      exact happended
    · cases h
      exact trans_of (Framed nested) happended (framed_advance ..)

theorem frames_cvQualifiers : Frames nested (parseCVQualifiers mangled) := .lookup fun _ s m => by
  have hone : ∀ (t : Char) (s : State), Framed nested (s, m) (if s.char mangled 0 = t then s.advance 1 else s, m) := by
    intro t s
    split
    · exact framed_advance ..
    · exact refl_of (Framed nested) (s, m)
  exact trans_of (Framed nested) (trans_of (Framed nested) (hone 'r' s) (hone 'V' _)) (hone 'K' _)

theorem frames_operatorList : Frames nested (parseOperatorList mangled) := .lookup fun x s m =>
  trans_of (Framed nested) (framed_appendOperator x.2.toList s m) (framed_advance ..)

theorem frames_builtinTypeList : Frames nested (parseBuiltinTypeList mangled) := .lookup fun x s m =>
  trans_of (Framed nested) (framed_maybeAppend x.2.toList s m) (framed_advance ..)

theorem frames_substitutionList : Frames nested (parseSubstitutionList mangled) := .lookup fun x s m =>
  trans_of (Framed nested) (framed_appendSubstitution x.2.toList s m) (framed_advance ..)

/-! ### Changes that are put back -/

/-- How far a function is from the state that it saved: whether it has turned the append mode off, and whether the nest
    level may be another one. -/
structure Phase where
  off : Bool
  nested : Bool

/-- What holds of a state in this phase. -/
structure Since (a : State × Mem) (c : Phase) (s : State) (m : Mem) : Prop where
  append : s.append = (a.1.append && !c.off)
  nestLevel : c.nested = false → s.nestLevel = a.1.nestLevel
  output : a.1.append = false → SameOutput a (s, m)

/-- The memory of a rejection: without the append mode the buffer is as it was. -/
def LeftBy (a : State × Mem) (m : Mem) : Prop := a.1.append = false → m.out = a.2.out

abbrev Passes (a : State × Mem) (p : P) (c c' : Phase) : Prop := Leads (Since a) (LeftBy a) p c c'

variable {off : Bool} {ph : Phase}

theorem passes_of_frames (hp : Frames nested p) (hph : ph.nested = false → nested = false) : Passes a p ph ph :=
  fun s m b s' m' h hs => by
    obtain ⟨happend, hnest, houtput⟩ := hp h
    have hoff : a.1.append = false → SameOutput a (s', m') := fun hfalse => by
      refine (hs.output hfalse).trans (houtput ?_)
      rw [hs.append, hfalse, Bool.false_and]
    cases b
    · exact fun hfalse => (hoff hfalse).out
    · exact ⟨happend.trans hs.append, fun hn => (hnest (hph hn)).trans (hs.nestLevel hn), hoff⟩

theorem passes (hp : Frames false p) : Passes a p ph ph := passes_of_frames hp fun _ => rfl

theorem passes_disableAppend : Passes a disableAppend ⟨off, nested⟩ ⟨true, nested⟩ := .act fun s m hs => by
  refine ⟨?_, hs.nestLevel, fun hfalse => (hs.output hfalse).trans ⟨rfl, rfl, rfl, rfl, rfl⟩⟩
  rw [Bool.not_true, Bool.and_false]

theorem passes_restoreAppend : Passes a (restoreAppend a.1.append) ⟨off, nested⟩ ⟨false, nested⟩ := .act fun s m hs => by
  refine ⟨?_, hs.nestLevel, fun hfalse => (hs.output hfalse).trans ⟨rfl, rfl, rfl, rfl, rfl⟩⟩
  rw [Bool.not_false, Bool.and_true]

theorem passes_enterNestedName : Passes a enterNestedName ⟨off, nested⟩ ⟨off, true⟩ := .act fun _ _ hs =>
  ⟨hs.append, nofun, fun hfalse => (hs.output hfalse).trans ⟨rfl, rfl, rfl, rfl, rfl⟩⟩

theorem passes_leaveNestedName : Passes a (leaveNestedName a.1.nestLevel) ⟨off, nested⟩ ⟨off, false⟩ := .act fun _ _ hs =>
  ⟨hs.append, fun _ => rfl, fun hfalse => (hs.output hfalse).trans ⟨rfl, rfl, rfl, rfl, rfl⟩⟩

/-- A retry that puts back what it changes. -/
theorem frames_retry {p : State → P} (hp : ∀ s m, Passes (s, m) (p s) ⟨false, false⟩ ⟨false, false⟩) :
    Frames nested (.retry p) := by
  refine frames_of_frames (.retry (fun s m => ?_) hp (fun a s m h => ?_) fun s m m' h => ?_)
  · exact ⟨(Bool.and_true _).symm, fun _ => rfl, fun _ => SameOutput.refl _⟩
  · exact ⟨h.append.trans (Bool.and_true _), fun _ => h.nestLevel rfl, h.output⟩
  · exact ⟨rfl, fun _ => rfl, fun hfalse => ⟨rfl, rfl, rfl, rfl, h hfalse⟩⟩

/-- A retry that changes nothing of the kind. -/
theorem frames_attempt (hp : Frames nested p) : Frames nested (.retry fun _ => p) := by
  refine .attempt (fun s m a h => ?_) fun _ => hp
  exact ⟨rfl, fun _ => rfl, fun hfalse => ⟨rfl, rfl, rfl, rfl, (h.output hfalse).out⟩⟩

/-- The recursion levels are no matter of the frame. -/
theorem frames_level {f : State → Mem → State × Mem}
    (h : ∀ s m, ∃ loc exp arg, f s m = ({ s with localLevel := loc, exprLevel := exp, argLevel := arg }, m)) :
    Frames nested (.act f) := .act fun s m => by
  obtain ⟨_, _, _, heq⟩ := h s m
  rw [heq]
  exact ⟨rfl, fun _ => rfl, fun _ => ⟨rfl, rfl, rfl, rfl, rfl⟩⟩

/-! ### Parse functions -/

variable {call : Func → P}

theorem frames_nestedName (hcall : ∀ g, Frames g.nests (call g)) : Frames nested (parseNestedName mangled call) :=
  frames_retry fun _ _ => .both (.both (.both (.both (.both (passes frames_token) passes_enterNestedName)
    (passes (.optional (hcall .cvQualifiers)))) (passes_of_frames (hcall .namePrefix) nofun)) passes_leaveNestedName)
    (passes frames_token)

theorem frames_abiTags (hcall : ∀ g, Frames g.nests (call g)) : Frames nested (parseAbiTags call) :=
  frames_retry fun _ _ => .both (.both passes_disableAppend (passes (hcall (.oneOrMore .abiTag)))) passes_restoreAppend

theorem frames_cast (hcall : ∀ g, Frames g.nests (call g)) : Frames nested
    (.retry fun copy => parseTwoCharToken mangled 'c' 'v' &&& appending "operator " &&& enterNestedName &&& call .type &&&
      leaveNestedName copy.nestLevel) :=
  frames_retry fun _ _ => .both (.both (.both (.both (passes frames_twoCharToken) (passes frames_appending))
    passes_enterNestedName) (passes (hcall .type))) passes_leaveNestedName

theorem frames_constructionVtable (hcall : ∀ g, Frames g.nests (call g)) : Frames nested
    (.retry fun copy => parseTwoCharToken mangled 'T' 'C' &&& call .type &&& call .number &&&
      parseOneCharToken mangled '_' &&& disableAppend &&& call .type &&& restoreAppend copy.append) :=
  frames_retry fun _ _ => .both (.both (.both (.both (.both (.both (passes frames_twoCharToken) (passes (hcall .type)))
    (passes (hcall .number))) (passes frames_token)) passes_disableAppend) (passes (hcall .type))) passes_restoreAppend

theorem frames_bareFunctionType (hcall : ∀ g, Frames g.nests (call g)) : Frames nested (parseBareFunctionType call) :=
  frames_retry fun _ _ =>
    .both (.both (.both passes_disableAppend (passes (hcall (.oneOrMore .type)))) passes_restoreAppend)
    (passes frames_appending)

theorem frames_templateArgs (hcall : ∀ g, Frames g.nests (call g)) : Frames nested (parseTemplateArgs mangled call) :=
  frames_retry fun _ _ => .both (.both (.both (.both (.both passes_disableAppend (passes frames_token))
    (passes (hcall (.oneOrMore .templateArg)))) (passes frames_token)) passes_restoreAppend) (passes frames_appending)

theorem frames_body (hcall : ∀ g, Frames g.nests (call g)) (f : Func) : Frames f.nests (body mangled call f) := by
  have htry : ∀ {p : P}, Frames false p → Frames false (.retry fun _ => p) := frames_attempt
  have hlevel : ∀ {f : State → Mem → State × Mem},
      (∀ s m, ∃ loc exp arg, f s m = ({ s with localLevel := loc, exprLevel := exp, argLevel := arg }, m)) →
        Frames false (.act f) := frames_level
  cases f with
  | mangledName => exact .both frames_twoCharToken (hcall .encoding)
  | encoding =>
    exact .either (.either (htry (.both (hcall .name) (hcall .bareFunctionType))) (hcall .name)) (hcall .specialName)
  | name =>
    exact .either (.either (.either (hcall .nestedName) (hcall .localName))
      (htry (.both (hcall .unscopedTemplateName) (hcall .templateArgs)))) (hcall .unscopedName)
  | unscopedName =>
    exact .either (hcall .unqualifiedName)
      (htry (.both (.both frames_twoCharToken frames_appending) (hcall .unqualifiedName)))
  | unscopedTemplateName => exact .either (hcall .unscopedName) (hcall .substitution)
  | nestedName => exact frames_nestedName hcall
  | namePrefix => exact hcall (.namePrefixLoop false)
  | namePrefixLoop hasSomething =>
    have hname : Frames true (call .templateParam ||| call .substitution ||| call .unscopedName) :=
      frames_of_frames (.either (.either (hcall .templateParam) (hcall .substitution)) (hcall .unscopedName))
    have hargs : Frames true (.ensure (fun _ => hasSomething) &&& call .templateArgs) :=
      frames_of_frames (.both .ensure (hcall .templateArgs))
    exact .both (.act framed_maybeAppendSeparator)
      (.branch hname (.both (.act framed_maybeIncreaseNestLevel) (hcall (.namePrefixLoop true)))
        (.both (.act framed_maybeCancelLastSeparator) (.branch hargs (hcall .namePrefix) (.ret true))))
  | unqualifiedName =>
    exact .either (.either (.either (hcall .operatorName) (hcall .ctorDtorName))
      (.both (hcall .sourceName) (.optional (hcall .abiTags))))
        (.both (hcall .localSourceName) (.optional (hcall .abiTags)))
  | sourceName => exact htry (frames_reading fun length => hcall (.identifier length))
  | localSourceName => exact htry (.both (.both frames_token (hcall .sourceName)) (.optional (hcall .discriminator)))
  | number => exact frames_reading fun _ => .ret true
  | floatNumber => exact frames_parseRun _
  | seqId => exact frames_parseRun _
  | identifier length => exact frames_identifier length
  | abiTags => exact frames_abiTags hcall
  | abiTag => exact .both frames_token (hcall .sourceName)
  | operatorName =>
    exact .both .ensure
      (.either (.either (frames_cast hcall) (htry (.both (.both frames_token frames_charClass) (hcall .sourceName))))
      (.both .ensure frames_operatorList))
  | specialName =>
    have hclass : ∀ token charClass, Frames false (parseOneCharToken mangled token &&& parseCharClass mangled charClass) :=
      fun _ _ => .both frames_token frames_charClass
    exact .either (.either (.either (.either (.either (.either (.either (.either
      (htry (.both (hclass _ _) (hcall .type)))
      (htry (.both (.both (.both frames_twoCharToken (hcall .callOffset)) (hcall .callOffset)) (hcall .encoding))))
      (htry (.both frames_twoCharToken (hcall .name))))
      (htry (.both (.both frames_token (hcall .callOffset)) (hcall .encoding))))
      (frames_constructionVtable hcall))
      (htry (.both (hclass _ _) (hcall .type))))
      (htry (.both frames_twoCharToken (hcall .name))))
      (htry (.both frames_twoCharToken (hcall .encoding))))
      (htry (.both (.both (hclass _ _) (hcall .callOffset)) (hcall .encoding)))
  | callOffset =>
    exact .either (htry (.both (.both frames_token (hcall .nvOffset)) frames_token))
      (htry (.both (.both frames_token (hcall .vOffset)) frames_token))
  | nvOffset => exact hcall .number
  | vOffset => exact htry (.both (.both (hcall .number) frames_token) (hcall .number))
  | ctorDtorName =>
    exact .either (htry (.both (.both frames_token frames_charClass) (.act fun _ _ => framed_maybeAppendWithLength ..)))
      (htry (.both (.both frames_token frames_charClass) (.act framed_replayDtorName)))
  | type =>
    exact .either (.either (.either (.either (.either (.either
      (htry (.both (hcall .cvQualifiers) (hcall .type)))
      (htry (.both frames_charClass (hcall .type))))
      (htry (.both frames_twoCharToken (hcall .type))))
      (htry (.both (.both (.both frames_token frames_charClass) (hcall .expression)) frames_token)))
      (htry (.both (.both frames_token (hcall .sourceName)) (hcall .type))))
      (htry (.either (.either (.either (.either (.either (.either (hcall .builtinType) (hcall .functionType))
        (hcall .classEnumType)) (hcall .arrayType)) (hcall .pointerToMemberType)) (hcall .substitution))
        (.both (hcall .templateTemplateParam) (hcall .templateArgs))))) (hcall .templateParam)
  | cvQualifiers => exact frames_cvQualifiers
  | builtinType => exact .either frames_builtinTypeList (htry (.both frames_token (hcall .sourceName)))
  | functionType =>
    exact htry (.both (.both (.both frames_token (.optional frames_token)) (hcall .bareFunctionType)) frames_token)
  | bareFunctionType => exact frames_bareFunctionType hcall
  | classEnumType => exact hcall .name
  | arrayType =>
    exact .either (htry (.both (.both (.both frames_token (hcall .number)) frames_token) (hcall .type)))
      (htry (.both (.both (.both frames_token (.optional (hcall .expression))) frames_token) (hcall .type)))
  | pointerToMemberType => exact htry (.both (.both frames_token (hcall .type)) (hcall .type))
  | templateParam =>
    exact .either (.both frames_twoCharToken frames_appending)
      (htry (.both (.both (.both frames_token (hcall .number)) frames_token) frames_appending))
  | templateTemplateParam => exact .either (hcall .templateParam) (hcall .substitution)
  | templateArgs => exact frames_templateArgs hcall
  | templateArg =>
    have hlower : Frames false lowerArgLevel := hlevel fun _ _ => ⟨_, _, _, rfl⟩
    exact .both (.both .ensure (hlevel fun _ _ => ⟨_, _, _, rfl⟩)) (.either (.either
      (htry
        (.both (.both (.both (.either frames_token frames_token) (hcall (.zeroOrMore .templateArg))) frames_token) hlower))
      (htry (.both (.either (hcall .type) (hcall .exprPrimary)) hlower)))
      (htry (.both (.both (.both frames_token (hcall .expression)) frames_token) hlower)))
  | expression =>
    have hlower : Frames false lowerExprLevel := hlevel fun _ _ => ⟨_, _, _, rfl⟩
    have hone : Frames false (call .operatorName &&& call .expression) := .both (hcall .operatorName) (hcall .expression)
    have hresolve : Frames false (parseTwoCharToken mangled 's' 'r' &&& call .type &&& call .unqualifiedName) :=
      .both (.both frames_twoCharToken (hcall .type)) (hcall .unqualifiedName)
    exact .either (.either (hcall .templateParam) (hcall .exprPrimary))
      (.both (.both .ensure (hlevel fun _ _ => ⟨_, _, _, rfl⟩)) (.either (.either (.either (.either (.either
        (htry (.both (.both (.both hone (hcall .expression)) (hcall .expression)) hlower))
        (htry (.both (.both hone (hcall .expression)) hlower)))
        (htry (.both hone hlower)))
        (htry (.both frames_twoCharToken (hcall .type))))
        (htry (.both (.both hresolve (hcall .templateArgs)) hlower)))
        (htry (.both hresolve hlower))))
  | exprPrimary =>
    exact .either (.either (.either
      (htry (.both (.both (.both frames_token (hcall .type)) (hcall .number)) frames_token))
      (htry (.both (.both (.both frames_token (hcall .type)) (hcall .floatNumber)) frames_token)))
      (htry (.both (.both frames_token (hcall .mangledName)) frames_token)))
      (htry (.both (.both frames_twoCharToken (hcall .encoding)) frames_token))
  | localName =>
    have hlower : Frames false lowerLocalLevel := hlevel fun _ _ => ⟨_, _, _, rfl⟩
    have hfunction : Frames false (parseOneCharToken mangled 'Z' &&& call .encoding) := .both frames_token (hcall .encoding)
    exact .both (.both .ensure (hlevel fun _ _ => ⟨_, _, _, rfl⟩)) (.either
      (htry (.both (.both (.both (.both (.both hfunction frames_token) frames_appending) (hcall .name))
        (.optional (hcall .discriminator))) hlower))
      (htry (.both (.both (.both hfunction frames_twoCharToken) (.optional (hcall .discriminator))) hlower)))
  | discriminator => exact htry (.both frames_token (hcall .number))
  | substitution =>
    exact .either (.either (.both frames_twoCharToken frames_appending)
      (htry (.both (.both (.both frames_token (hcall .seqId)) frames_token) frames_appending)))
      (htry (.both frames_token frames_substitutionList))
  | topLevelMangledName =>
    exact .both (hcall .mangledName) (.branch .ensure
      (.either .ensure (.both .ensure (.act fun s m => framed_maybeAppend (mangled.rest s.mangledCur) s m))) (.ret true))
  | oneOrMore item =>
    have hitem : Frames false (call item.func) := by cases item <;> exact hcall _
    exact .branch hitem (hcall (.zeroOrMore item)) (.ret false)
  | zeroOrMore item =>
    have hitem : Frames false (call item.func) := by cases item <;> exact hcall _
    exact .branch hitem (hcall (.zeroOrMore item)) (.ret true)

end

/-- Whether it succeeds or fails, a parse function leaves the append mode as it was, and, if it is not `ParsePrefix`,
the nest level too; without the append mode it leaves the output as it was. -/
theorem parse_frames (mangled : CString) (f : Func) (s : State) (m : Mem) :
    ∃ b s' m', parse mangled f s m = some (b, s', m') ∧
    s'.append = s.append ∧ (f.nests = false → s'.nestLevel = s.nestLevel) ∧
      (s.append = false → SameOutput (s, m) (s', m')) := by
  obtain ⟨⟨b, s', m'⟩, h⟩ := Option.isSome_iff_exists.mp (parse_isSome mangled f s m)
  have hnote : ∀ (f : Func) s m a, Framed f.nests (s, noteCall f s m) a → Framed f.nests (s, m) a := by
    intro f s m a ha
    have hcalled : Framed f.nests (s, m) (s, noteCall f s m) := ⟨rfl, fun _ => rfl, fun _ => ⟨rfl, rfl, rfl, rfl, rfl⟩⟩
    exact trans_of (Framed f.nests) hcalled ha
  have hframes : Frames f.nests (parse mangled f) :=
    Relates.run (R := fun f => Framed f.nests) hnote (fun _ hcall f => frames_body hcall f) f
  obtain ⟨happend, hnest, houtput⟩ := hframes h
  exact ⟨b, s', m', h, happend, hnest, houtput⟩

end Glog.Demangle
