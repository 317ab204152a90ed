import Glog.Demangle.Number
import Glog.Demangle.Output

/-! # The demangler makes progress

Every acceptance moves the cursor of the mangled name forward, except for the functions that accept the
empty string, and the cursor never moves back or past the terminator. A call made before any progress
goes down in `rank`. So the recursion terminates, and `run` gives its total run with the equations
`run_eq`. -/

namespace Glog.Demangle
open Backtrack Backtrack.Parser

/-- The functions whose acceptance moves the cursor: all but `ParsePrefix`, `ParseIdentifier` and
    `ZeroOrMore`. -/
def strict : Func → Bool
  | .namePrefix | .namePrefixLoop _ | .identifier _ | .zeroOrMore _ => false
  | _ => true

/-- A call that a function makes before any progress goes to a function of smaller rank. -/
def rank : Func → Nat
  | .sourceName | .nvOffset | .vOffset | .templateTemplateParam | .topLevelMangledName => 1
  | .unqualifiedName | .expression => 2
  | .unscopedName => 3
  | .unscopedTemplateName | .namePrefixLoop _ => 4
  | .name | .namePrefix => 5
  | .encoding | .classEnumType => 6
  | .type => 7
  | .templateArg => 8
  | .oneOrMore _ | .zeroOrMore _ => 9
  | .bareFunctionType | .abiTags => 10
  | _ => 0

/-- More than every rank. -/
def width : Nat := 11

theorem rank_lt (f : Func) : rank f < width := by
  unfold rank width
  split <;> omega

section
variable {mangled : CString}

/-- `Moves` for the cursor of `mangled`. -/
abbrev Advances (mangled : CString) (strict : Bool) (p : P) : Prop :=
  Moves State.mangledCur mangled.length strict p

/-! ### Tokens -/

theorem lt_length_of_get (mangled : CString) {i : Nat} (h : mangled.get i ≠ '\x00') : i < mangled.length := by
  refine Nat.lt_of_not_le fun hle => h ?_
  simp only [CString.get, List.getD_eq_getElem?_getD, List.getElem?_eq_none hle, Option.getD_none]

theorem lt_length_of_char (mangled : CString) {s : State} {k : Nat} {c : Char} (h : s.char mangled k = c)
    (hc : c ≠ '\x00') : s.mangledCur + k < mangled.length :=
  lt_length_of_get mangled fun hnul => hc (h.symm.trans hnul)

theorem atLeastNumCharsRemaining_length (mangled : CString) {i n : Nat} (h : atLeastNumCharsRemaining mangled i n = true) :
    n ≤ (mangled.rest i).length := by
  rw [CString.rest, List.length_drop]
  change n ≤ mangled.length - i
  induction n generalizing i with
  | zero => omega
  | succ n ih =>
    simp only [atLeastNumCharsRemaining, Bool.and_eq_true, bne_iff_ne] at h
    have hlt := lt_length_of_get mangled h.1
    have := ih h.2
    omega

theorem advances_parseIf {c : Char → Bool} (hc : c '\x00' = false) : Advances mangled true (parseIf mangled c) :=
  .lookup fun s m x hx => by
    have hchar : c (s.char mangled 0) = true := by
      by_cases h : c (s.char mangled 0) = true
      · exact h
      · simp [h] at hx
    have hlt := lt_length_of_char mangled (s := s) rfl fun h => by
      rw [h, hc] at hchar
      cases hchar
    simp only [State.advance]
    omega

theorem advances_token {token : Char} (h : token ≠ '\x00') :
    Advances mangled true (parseOneCharToken mangled token) :=
  advances_parseIf (by simpa using h.symm)

theorem advances_charClass {charClass : List Char} (h : '\x00' ∉ charClass) :
    Advances mangled true (parseCharClass mangled charClass) :=
  advances_parseIf (by simpa using h)

theorem advances_twoCharToken {first second : Char} (h : second ≠ '\x00') :
    Advances mangled true (parseTwoCharToken mangled first second) :=
  .lookup fun s m x hx => by
    have hchar : s.char mangled 1 = second := by
      by_cases h : (s.char mangled 0 == first && s.char mangled 1 == second) = true
      · exact (by simpa using h : _ ∧ _).2
      · simp [h] at hx
    have hlt := lt_length_of_char mangled hchar h
    simp only [State.advance]
    omega

theorem advances_act {f : State → Mem → State × Mem} (hf : ∀ s m, OutputOnly (s, m) (f s m)) :
    Advances mangled false (.act f) :=
  .act fun s m => (hf s m).mangledCur

theorem advances_appending (text : String) : Advances mangled false (appending text) :=
  advances_act (maybeAppend_outputOnly text.toList)

theorem maybeIncreaseNestLevel_mangledCur (s : State) (m : Mem) :
    (maybeIncreaseNestLevel s m).1.mangledCur = s.mangledCur := by
  unfold maybeIncreaseNestLevel
  split <;> rfl

theorem maybeIncreaseNestLevel_mem (s : State) (m : Mem) : (maybeIncreaseNestLevel s m).2 = m := by
  unfold maybeIncreaseNestLevel
  split <;> rfl

/-! ### Numbers, identifiers and tables -/

/-- The optional `n` of a number lies inside the string. -/
theorem numeralStart_cases (mangled : CString) (s : State) : numeralStart mangled s = s.mangledCur ∨
    numeralStart mangled s = s.mangledCur + 1 ∧ s.mangledCur + 1 ≤ mangled.length := by
  by_cases h : s.char mangled 0 = 'n'
  · have hlt := lt_length_of_char mangled h (by decide)
    exact Or.inr ⟨if_pos (beq_iff_eq.mpr h), hlt⟩
  · exact Or.inl (numeralStart_of_ne h)

/-- A number moves the cursor inside the string, past a digit at least; a failure past an `n` at most. -/
theorem parseNumber_moves (s : State) :
    s.mangledCur ≤ (parseNumber mangled s).2.mangledCur ∧
    ((parseNumber mangled s).2.mangledCur = s.mangledCur ∨
      (parseNumber mangled s).2.mangledCur ≤ mangled.length) ∧
    ((parseNumber mangled s).1.isSome → s.mangledCur < (parseNumber mangled s).2.mangledCur) := by
  have hstart := numeralStart_cases mangled s
  by_cases h : IsNumber mangled s
  · have hpos := List.length_pos_iff.mpr h.1
    have hrest : (mangled.rest (numeralStart mangled s)).length = mangled.length - numeralStart mangled s :=
      List.length_drop
    have hle : (numeral mangled s).length ≤ (mangled.rest (numeralStart mangled s)).length :=
      (List.takeWhile_sublist isDigit).length_le
    rw [parseNumber_of_isNumber h]
    refine ⟨?_, ?_, fun _ => ?_⟩
    · dsimp only
      omega
    · dsimp only
      omega
    · dsimp only
      omega
  · rw [parseNumber_of_not_isNumber h]
    refine ⟨?_, ?_, nofun⟩
    · dsimp only
      omega
    · dsimp only
      omega

theorem advances_parseRun (c : Char → Bool) : Advances mangled true (parseRun mangled c) :=
  .lookup fun s m count h => by
    have hle := ((mangled.rest s.mangledCur).takeWhile_sublist c).length_le
    rw [CString.rest, List.length_drop] at hle
    dsimp only at h
    split at h
    · cases h
    · cases h
      simp only [State.advance, CString.length, CString.rest] at *
      omega

theorem advances_identifier (length : Int) : Advances mangled false (parseIdentifier mangled length) :=
  fun s m b s' m' h => by
    have hcur := (appendIdentifier_outputOnly mangled length s m).mangledCur
    have hrest : (mangled.rest s.mangledCur).length = mangled.length - s.mangledCur := List.length_drop ..
    unfold parseIdentifier at h
    split at h
    · cases h
      simp
    · dsimp only at h
      split at h
      · simp only [Option.some.injEq, Prod.mk.injEq] at h
        obtain ⟨-, h⟩ := h
        rw [h] at hcur
        simp only at hcur
        simp [hcur]
      · simp only [Option.some.injEq, Prod.mk.injEq] at h
        obtain ⟨-, rfl, -⟩ := h
        simp only [State.advance, hcur, Bool.false_eq_true, false_implies, and_true]
        omega

theorem parseIdentifier_isSome (length : Int) (s : State) (m : Mem) :
    (parseIdentifier mangled length s m).isSome := by
  unfold parseIdentifier
  split
  · rfl
  · dsimp only
    split <;> rfl

/-- Each of the three qualifiers moves the cursor past itself, inside the string. -/
theorem cvQualifier_advance (mangled : CString) {c : Char} (hc : c ≠ '\x00') (s : State) :
    (if s.char mangled 0 = c then s.advance 1 else s).mangledCur = s.mangledCur ∨
    (if s.char mangled 0 = c then s.advance 1 else s).mangledCur = s.mangledCur + 1 ∧
      s.mangledCur + 1 ≤ mangled.length := by
  by_cases h : s.char mangled 0 = c
  · right
    have hlt := lt_length_of_char mangled h hc
    simp only [h, if_true, State.advance, true_and]
    omega
  · left
    simp [h]

theorem advances_cvQualifiers : Advances mangled true (parseCVQualifiers mangled) :=
  .lookup fun s m x hx => by
    have hgt : s.mangledCur < (cvQualifiers mangled s).mangledCur := by
      by_cases h : (cvQualifiers mangled s).mangledCur > s.mangledCur
      · exact h
      · simp [h] at hx
    refine ⟨hgt, ?_⟩
    unfold cvQualifiers at hgt ⊢
    dsimp only at hgt ⊢
    have h₁ := cvQualifier_advance mangled (c := 'r') (by decide) s
    generalize (if s.char mangled 0 = 'r' then s.advance 1 else s) = s₁ at h₁ hgt ⊢
    have h₂ := cvQualifier_advance mangled (c := 'V') (by decide) s₁
    generalize (if s₁.char mangled 0 = 'V' then s₁.advance 1 else s₁) = s₂ at h₂ hgt ⊢
    have h₃ := cvQualifier_advance mangled (c := 'K') (by decide) s₂
    omega

theorem advances_operatorList : Advances mangled true (parseOperatorList mangled) :=
  .lookup fun s m p hp => by
    have hfound := List.find?_some hp
    simp only [Bool.and_eq_true, beq_iff_eq] at hfound
    have hne : ∀ p ∈ operatorList, p.1.2 ≠ '\x00' := by decide
    have hlt := lt_length_of_char mangled hfound.2 (hne p (List.mem_of_find?_eq_some hp))
    simp only [State.advance, (appendOperator_outputOnly ..).mangledCur]
    omega

theorem advances_builtinTypeList : Advances mangled true (parseBuiltinTypeList mangled) :=
  .lookup fun s m p hp => by
    have hfound := List.find?_some hp
    simp only [beq_iff_eq] at hfound
    have hne : ∀ p ∈ builtinTypeList, p.1 ≠ '\x00' := by decide
    have hlt := lt_length_of_char mangled hfound (hne p (List.mem_of_find?_eq_some hp))
    simp only [State.advance, (maybeAppend_outputOnly ..).mangledCur]
    omega

theorem advances_substitutionList : Advances mangled true (parseSubstitutionList mangled) :=
  .lookup fun s m p hp => by
    have hfound := List.find?_some hp
    simp only [beq_iff_eq] at hfound
    have hne : ∀ p ∈ substitutionList, p.1 ≠ '\x00' := by decide
    have hlt := lt_length_of_char mangled hfound (hne p (List.mem_of_find?_eq_some hp))
    simp only [State.advance, (appendSubstitution_outputOnly ..).mangledCur]
    omega

/-! ### The recursion -/

section
variable {D : Domain mangled.length} {far : Bool} {call call' : Func → P}

theorem steady_token {token : Char} (h : token ≠ '\x00' := by decide) :
    Steady State.mangledCur D far true (parseOneCharToken mangled token) (parseOneCharToken mangled token) :=
  .lookup (advances_token h)

theorem steady_twoCharToken {first second : Char} (h : second ≠ '\x00' := by decide) :
    Steady State.mangledCur D far true (parseTwoCharToken mangled first second)
      (parseTwoCharToken mangled first second) :=
  .lookup (advances_twoCharToken h)

theorem steady_charClass {charClass : List Char} (h : '\x00' ∉ charClass := by decide) :
    Steady State.mangledCur D far true (parseCharClass mangled charClass) (parseCharClass mangled charClass) :=
  .lookup (advances_charClass h)

theorem steady_appending (text : String) :
    Steady State.mangledCur D far false (appending text) (appending text) :=
  .act (advances_appending text)

/-- A change of fields other than the cursor. -/
theorem steady_set {f : State → Mem → State × Mem} (h : ∀ s m, (f s m).1.mangledCur = s.mangledCur) :
    Steady State.mangledCur D far false (Parser.act f) (Parser.act f) :=
  .act (.act h)

/-- Each function keeps the discipline of calls. -/
theorem steady_body (f : Func)
    (hcall : ∀ {far} g, (far || decide (rank g < rank f)) = true →
      Steady State.mangledCur D far (strict g) (call g) (call' g)) :
    Steady State.mangledCur D false (strict f) (body mangled call f) (body mangled call' f) := by
  cases f with
  | mangledName => exact .mono (.both steady_twoCharToken (hcall .encoding rfl))
  | encoding =>
    exact .mono (.either (.either (.retry fun _ => .both (hcall .name rfl) (hcall .bareFunctionType rfl))
      (hcall .name rfl)) (hcall .specialName rfl))
  | name =>
    exact .mono (.either (.either (.either (hcall .nestedName rfl) (hcall .localName rfl))
      (.retry fun _ => .both (hcall .unscopedTemplateName rfl) (hcall .templateArgs rfl)))
      (hcall .unscopedName rfl))
  | unscopedName =>
    exact .mono (.either (hcall .unqualifiedName rfl)
      (.retry fun _ => .both (.both steady_twoCharToken (steady_appending _)) (hcall .unqualifiedName rfl)))
  | unscopedTemplateName => exact .mono (.either (hcall .unscopedName rfl) (hcall .substitution rfl))
  | nestedName =>
    exact .mono (.retry fun _ => .both (.both (.both (.both (.both steady_token (steady_set fun _ _ => rfl))
      (.optional (hcall .cvQualifiers rfl))) (hcall .namePrefix rfl)) (steady_set fun _ _ => rfl)) steady_token)
  | namePrefix => exact hcall (.namePrefixLoop false) rfl
  | namePrefixLoop hasSomething =>
    exact .mono (.both (.act (advances_act maybeAppendSeparator_outputOnly))
      (.branch (.either (.either (hcall .templateParam rfl) (hcall .substitution rfl)) (hcall .unscopedName rfl))
        (.both (steady_set maybeIncreaseNestLevel_mangledCur) (hcall (.namePrefixLoop true) rfl))
        (.both (.act (advances_act maybeCancelLastSeparator_outputOnly))
          (.branch (.both .ensure (hcall .templateArgs rfl)) (hcall .namePrefix rfl) (.ret true)))))
      (Bool.false_le _)
  | unqualifiedName =>
    exact .mono (.either (.either (.either (hcall .operatorName rfl) (hcall .ctorDtorName rfl))
      (.both (hcall .sourceName rfl) (.optional (hcall .abiTags rfl))))
      (.both (hcall .localSourceName rfl) (.optional (hcall .abiTags rfl))))
  | sourceName =>
    exact .mono (.retry fun _ => .reading parseNumber_moves fun length => hcall (.identifier length) rfl)
  | localSourceName =>
    exact .mono (.retry fun _ => .both (.both steady_token (hcall .sourceName rfl))
      (.optional (hcall .discriminator rfl)))
  | number => exact .mono (.reading parseNumber_moves fun _ => .ret true)
  | floatNumber => exact .mono (.lookup (advances_parseRun _))
  | seqId => exact .mono (.lookup (advances_parseRun _))
  | identifier length => exact .of_moves (advances_identifier length) (parseIdentifier_isSome length)
  | abiTags =>
    exact .mono (.retry fun _ => .both (.both (steady_set fun _ _ => rfl) (hcall (.oneOrMore .abiTag) rfl))
      (steady_set fun _ _ => rfl))
  | abiTag => exact .mono (.both steady_token (hcall .sourceName rfl))
  | operatorName =>
    exact .mono (.both .ensure
      (.either (.either
        (.retry fun _ => .both (.both (.both (.both steady_twoCharToken (steady_appending _))
          (steady_set fun _ _ => rfl)) (hcall .type rfl)) (steady_set fun _ _ => rfl))
        (.retry fun _ => .both (.both steady_token steady_charClass) (hcall .sourceName rfl)))
        (.both .ensure (.lookup advances_operatorList))))
  | specialName =>
    exact .mono (.either (.either (.either (.either (.either (.either (.either (.either
      (.retry fun _ => .both (.both steady_token steady_charClass) (hcall .type rfl))
      (.retry fun _ => .both (.both (.both steady_twoCharToken (hcall .callOffset rfl)) (hcall .callOffset rfl))
        (hcall .encoding rfl))) (.retry fun _ => .both steady_twoCharToken (hcall .name rfl)))
      (.retry fun _ => .both (.both steady_token (hcall .callOffset rfl)) (hcall .encoding rfl)))
      (.retry fun _ => .both (.both (.both (.both (.both (.both steady_twoCharToken (hcall .type rfl))
        (hcall .number rfl)) steady_token) (steady_set fun _ _ => rfl)) (hcall .type rfl))
        (steady_set fun _ _ => rfl)))
      (.retry fun _ => .both (.both steady_token steady_charClass) (hcall .type rfl)))
      (.retry fun _ => .both steady_twoCharToken (hcall .name rfl)))
      (.retry fun _ => .both steady_twoCharToken (hcall .encoding rfl)))
      (.retry fun _ => .both (.both (.both steady_token steady_charClass) (hcall .callOffset rfl))
        (hcall .encoding rfl)))
  | callOffset =>
    exact .mono (.either (.retry fun _ => .both (.both steady_token (hcall .nvOffset rfl)) steady_token)
      (.retry fun _ => .both (.both steady_token (hcall .vOffset rfl)) steady_token))
  | nvOffset => exact hcall .number rfl
  | vOffset => exact .mono (.retry fun _ => .both (.both (hcall .number rfl) steady_token) (hcall .number rfl))
  | ctorDtorName =>
    exact .mono (.either
      (.retry fun _ => .both (.both steady_token steady_charClass) (.act (advances_act replayName_outputOnly)))
      (.retry fun _ => .both (.both steady_token steady_charClass) (.act (advances_act replayDtorName_outputOnly))))
  | type =>
    exact .mono (.either (.either (.either (.either (.either (.either
      (.retry fun _ => .both (hcall .cvQualifiers rfl) (hcall .type rfl))
      (.retry fun _ => .both steady_charClass (hcall .type rfl)))
      (.retry fun _ => .both steady_twoCharToken (hcall .type rfl)))
      (.retry fun _ => .both (.both (.both steady_token steady_charClass) (hcall .expression rfl)) steady_token))
      (.retry fun _ => .both (.both steady_token (hcall .sourceName rfl)) (hcall .type rfl)))
      (.retry fun _ => .either (.either (.either (.either (.either (.either (hcall .builtinType rfl)
        (hcall .functionType rfl)) (hcall .classEnumType rfl)) (hcall .arrayType rfl))
        (hcall .pointerToMemberType rfl)) (hcall .substitution rfl))
        (.both (hcall .templateTemplateParam rfl) (hcall .templateArgs rfl)))) (hcall .templateParam rfl))
  | cvQualifiers => exact .lookup advances_cvQualifiers
  | builtinType =>
    exact .mono (.either (.lookup advances_builtinTypeList)
      (.retry fun _ => .both steady_token (hcall .sourceName rfl)))
  | functionType =>
    exact .mono (.retry fun _ => .both (.both (.both steady_token (.optional steady_token))
      (hcall .bareFunctionType rfl)) steady_token)
  | bareFunctionType =>
    exact .mono (.retry fun _ => .both (.both (.both (steady_set fun _ _ => rfl) (hcall (.oneOrMore .type) rfl))
      (steady_set fun _ _ => rfl)) (steady_appending _))
  | classEnumType => exact hcall .name rfl
  | arrayType =>
    exact .mono (.either
      (.retry fun _ => .both (.both (.both steady_token (hcall .number rfl)) steady_token) (hcall .type rfl))
      (.retry fun _ => .both (.both (.both steady_token (.optional (hcall .expression rfl))) steady_token)
        (hcall .type rfl)))
  | pointerToMemberType =>
    exact .mono (.retry fun _ => .both (.both steady_token (hcall .type rfl)) (hcall .type rfl))
  | templateParam =>
    exact .mono (.either (.both steady_twoCharToken (steady_appending _))
      (.retry fun _ => .both (.both (.both steady_token (hcall .number rfl)) steady_token) (steady_appending _)))
  | templateTemplateParam => exact .mono (.either (hcall .templateParam rfl) (hcall .substitution rfl))
  | templateArgs =>
    exact .mono (.retry fun _ => .both (.both (.both (.both (.both (steady_set fun _ _ => rfl) steady_token)
      (hcall (.oneOrMore .templateArg) rfl)) steady_token) (steady_set fun _ _ => rfl)) (steady_appending _))
  | templateArg =>
    exact .mono (.both (.both .ensure (steady_set fun _ _ => rfl))
      (.either (.either
        (.retry fun _ => .both (.both (.both (.either steady_token steady_token)
          (hcall (.zeroOrMore .templateArg) rfl)) steady_token) (steady_set fun _ _ => rfl))
        (.retry fun _ => .both (.either (hcall .type rfl) (hcall .exprPrimary rfl)) (steady_set fun _ _ => rfl)))
        (.retry fun _ => .both (.both (.both steady_token (hcall .expression rfl)) steady_token)
          (steady_set fun _ _ => rfl))))
  | expression =>
    exact .mono (.either (.either (hcall .templateParam rfl) (hcall .exprPrimary rfl))
      (.both (.both .ensure (steady_set fun _ _ => rfl))
        (.either (.either (.either (.either (.either
          (.retry fun _ => .both (.both (.both (.both (hcall .operatorName rfl) (hcall .expression rfl))
            (hcall .expression rfl)) (hcall .expression rfl)) (steady_set fun _ _ => rfl))
          (.retry fun _ => .both (.both (.both (hcall .operatorName rfl) (hcall .expression rfl))
            (hcall .expression rfl)) (steady_set fun _ _ => rfl)))
          (.retry fun _ => .both (.both (hcall .operatorName rfl) (hcall .expression rfl))
            (steady_set fun _ _ => rfl))) (.retry fun _ => .both steady_twoCharToken (hcall .type rfl)))
          (.retry fun _ => .both (.both (.both (.both steady_twoCharToken (hcall .type rfl))
            (hcall .unqualifiedName rfl)) (hcall .templateArgs rfl)) (steady_set fun _ _ => rfl)))
          (.retry fun _ => .both (.both (.both steady_twoCharToken (hcall .type rfl)) (hcall .unqualifiedName rfl))
            (steady_set fun _ _ => rfl)))))
  | exprPrimary =>
    exact .mono (.either (.either (.either
      (.retry fun _ => .both (.both (.both steady_token (hcall .type rfl)) (hcall .number rfl)) steady_token)
      (.retry fun _ => .both (.both (.both steady_token (hcall .type rfl)) (hcall .floatNumber rfl)) steady_token))
      (.retry fun _ => .both (.both steady_token (hcall .mangledName rfl)) steady_token))
      (.retry fun _ => .both (.both steady_twoCharToken (hcall .encoding rfl)) steady_token))
  | localName =>
    exact .mono (.both (.both .ensure (steady_set fun _ _ => rfl))
      (.either
        (.retry fun _ => .both (.both (.both (.both (.both (.both steady_token (hcall .encoding rfl)) steady_token)
          (steady_appending _)) (hcall .name rfl)) (.optional (hcall .discriminator rfl)))
          (steady_set fun _ _ => rfl))
        (.retry fun _ => .both (.both (.both (.both steady_token (hcall .encoding rfl)) steady_twoCharToken)
          (.optional (hcall .discriminator rfl))) (steady_set fun _ _ => rfl))))
  | discriminator => exact .mono (.retry fun _ => .both steady_token (hcall .number rfl))
  | substitution =>
    exact .mono (.either (.either (.both steady_twoCharToken (steady_appending _))
      (.retry fun _ => .both (.both (.both steady_token (hcall .seqId rfl)) steady_token) (steady_appending _)))
      (.retry fun _ => .both steady_token (.lookup advances_substitutionList)))
  | topLevelMangledName =>
    exact .mono (.both (hcall .mangledName rfl)
      (.branch .ensure (.either .ensure (.both .ensure (.act (advances_act fun s m => maybeAppend_outputOnly ..))))
        (.ret true)))
  | oneOrMore item =>
    have hitem : strict item.func = true := by cases item <;> rfl
    refine .mono (.branch (hcall item.func (by cases item <;> rfl)) (hcall (.zeroOrMore item) ?_) (.ret false)) ?_
    · rw [hitem]
      rfl
    · rw [hitem]
      exact Bool.le_true _
  | zeroOrMore item =>
    have hitem : strict item.func = true := by cases item <;> rfl
    refine .mono (.branch (hcall item.func (by cases item <;> rfl)) (hcall (.zeroOrMore item) ?_) (.ret true))
      (Bool.false_le _)
    rw [hitem]
    rfl

theorem ranked : Ranked State.mangledCur mangled.length strict rank width (body mangled) :=
  ⟨rank_lt, steady_body⟩

end

end

end Glog.Demangle
