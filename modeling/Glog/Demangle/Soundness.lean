import Mathlib.Data.List.TakeWhile
import Glog.Demangle.Failure
import Glog.Demangle.Grammar

/-! # The demangler accepts only its grammar

Each parse function moves over words that its nonterminal derives, except where it slips: `ParseSourceName`
at a length of zero, `ParseNestedName` at an empty prefix, `ParseTemplateParam` at a negative number, and
the loop of `ParseAbiTags` at a `B` that no source name follows. -/

namespace Glog.Demangle
open Backtrack Backtrack.Parser Computability

section
variable (mangled : CString)

/-- Whether there is a number above zero with as many characters after it. -/
def sourceNameAt (s : State) : Bool :=
  match parseNumber mangled s with
  | (some n, s₁) => decide (0 < n) && atLeastNumCharsRemaining mangled s₁.mangledCur n.toNat
  | (none, _) => false

/-- Whether a call accepts what the grammar does not derive. -/
def slips : Func → State → Bool
  | .sourceName, s => (parseNumber mangled s).1 == some 0
  | .nestedName, s => s.char mangled 0 == 'N' && (cvQualifiers mangled (s.advance 1)).char mangled 0 == 'E'
  | .templateParam, s => s.char mangled 0 == 'T' && s.char mangled 1 == 'n' &&
    (parseNumber mangled (s.advance 1)).1.isSome && (parseNumber mangled (s.advance 1)).2.char mangled 0 == '_'
  | .zeroOrMore .abiTag, s => s.char mangled 0 == 'B' && !sourceNameAt mangled (s.advance 1)
  | _, _ => false

/-- No call on record slips. -/
def NoSlips (m : Mem) : Prop := ∀ f s, .call f s ∈ m.trace → slips mangled f s = false

/-- What a parse function moves over, where `L` is what the nonterminals derive. -/
def accepted (L : Func → Language Char) : Func → Language Char
  | .namePrefix | .namePrefixLoop false => opt (L .namePrefix)
  | .namePrefixLoop true => opt (L .templateArgs) * opt (L .namePrefix)
  | .oneOrMore item => L item.func * (L item.func)∗
  | .zeroOrMore item => (L item.func)∗
  | .topLevelMangledName => L .mangledName
  | f => L f

/-- The functions that leave the cursor where it was when they fail. -/
def keepsCursor : Func → Bool
  | .mangledName | .number | .nvOffset | .abiTag | .topLevelMangledName => false
  | .namePrefix | .namePrefixLoop _ | .oneOrMore _ | .zeroOrMore _ => false
  | _ => true

end

section
variable {mangled : CString} {L : Func → Language Char}

/-- `Reads` for the cursor of `mangled`, under the condition that no call slips. -/
abbrev ReadsName (mangled : CString) (X : Language Char) (keep : Bool) (p : P) : Prop :=
  Reads mangled.chars State.mangledCur (NoSlips mangled) X keep p

theorem NoSlips.of_suffix {m m' : Mem} (h : m.trace <:+ m'.trace) (hm : NoSlips mangled m') : NoSlips mangled m :=
  fun f s hmem => hm f s (h.subset hmem)

/-! ### Tokens and tables -/

theorem extract_succ {i : Nat} {c : Char} (h : mangled.get i = c) (hc : c ≠ '\x00') :
    mangled.chars.extract i (i + 1) = [c] := by
  have hlt : i < mangled.chars.length := lt_length_of_get mangled (h ▸ hc)
  have hget : mangled.chars[i] = c := by
    rw [← h, CString.get, List.getD_eq_getElem?_getD, List.getElem?_eq_getElem hlt]
    rfl
  rw [List.extract_eq_take_drop, List.drop_eq_getElem_cons hlt, hget]
  simp

theorem extract_char (mangled : CString) {s : State} {c : Char} (h : s.char mangled 0 = c) (hc : c ≠ '\x00') :
    mangled.chars.extract s.mangledCur (s.mangledCur + 1) = [c] :=
  extract_succ h hc

theorem reads_parseIf {c : Char → Bool} (hc : c '\x00' = false) {X : Language Char} (hX : ∀ x, c x = true → [x] ∈ X) :
    ReadsName mangled X true (parseIf mangled c) := by
  refine .lookup (fun s m x hx => ⟨Nat.le_succ _, ?_⟩) fun s m _ h => h
  have hchar : c (s.char mangled 0) = true := by
    by_cases h : c (s.char mangled 0) = true
    · exact h
    · simp [h] at hx
  have hne : s.char mangled 0 ≠ '\x00' := fun h => by
    rw [h, hc] at hchar
    cases hchar
  have hword := extract_char mangled (s := s) rfl hne
  change mangled.chars.extract s.mangledCur (s.mangledCur + 1) ∈ X
  rw [hword]
  exact hX _ hchar

theorem reads_token {token : Char} (h : token ≠ '\x00' := by decide) :
    ReadsName mangled (chr token) true (parseOneCharToken mangled token) :=
  reads_parseIf (by simpa using h.symm) fun x hx => by
    rw [beq_iff_eq.mp hx]
    rfl

theorem reads_charClass {charClass : List Char} (h : '\x00' ∉ charClass := by decide) :
    ReadsName mangled (oneOf charClass) true (parseCharClass mangled charClass) :=
  reads_parseIf (by simpa using h) fun x hx => ⟨x, by simpa using hx, rfl⟩

theorem extract_two {i : Nat} {first second : Char} (h₁ : mangled.get i = first) (h₂ : mangled.get (i + 1) = second)
    (hfirst : first ≠ '\x00') (hsecond : second ≠ '\x00') :
    mangled.chars.extract i (i + 2) = [first, second] := by
  rw [← extract_append mangled.chars (Nat.le_succ i) (Nat.le_succ (i + 1)), extract_succ h₁ hfirst,
    extract_succ h₂ hsecond]
  rfl

theorem reads_twoCharToken {first second : Char} (h₁ : first ≠ '\x00' := by decide) (h₂ : second ≠ '\x00' := by decide) :
    ReadsName mangled (two first second) true (parseTwoCharToken mangled first second) := by
  refine .lookup (fun s m x hx => ⟨Nat.le_add_right _ 2, ?_⟩) fun s m _ h => h
  have hchars : s.char mangled 0 = first ∧ s.char mangled 1 = second := by
    by_cases h : (s.char mangled 0 == first && s.char mangled 1 == second) = true
    · simpa using h
    · simp [h] at hx
  exact extract_two hchars.1 hchars.2 h₁ h₂

theorem reads_set {f : State → Mem → State × Mem} (hpos : ∀ s m, (f s m).1.mangledCur = s.mangledCur)
    (hmem : ∀ s m, (f s m).2 = m) : ReadsName mangled 1 true (Parser.act f) :=
  .act hpos fun s m h => by rwa [hmem] at h

theorem reads_act {f : State → Mem → State × Mem} (hf : ∀ s m, OutputOnly (s, m) (f s m)) :
    ReadsName mangled 1 true (Parser.act f) :=
  .act (fun s m => (hf s m).mangledCur) fun s m h => h.of_suffix (hf s m).trace

section
variable {X : Language Char} {k : Bool} {p : P}

/-- A change of the state before or after a parser that reads `X`. -/
theorem reads_set_both {f : State → Mem → State × Mem} (hp : ReadsName mangled X k p)
    (hpos : ∀ s m, (f s m).1.mangledCur = s.mangledCur := by exact fun _ _ => rfl)
    (hmem : ∀ s m, (f s m).2 = m := by exact fun _ _ => rfl) : ReadsName mangled X k (Parser.act f &&& p) :=
  .both_stays (reads_set hpos hmem) (.act hpos) hp

theorem reads_both_set {f : State → Mem → State × Mem} (hp : ReadsName mangled X k p)
    (hpos : ∀ s m, (f s m).1.mangledCur = s.mangledCur := by exact fun _ _ => rfl)
    (hmem : ∀ s m, (f s m).2 = m := by exact fun _ _ => rfl) : ReadsName mangled X k (p &&& Parser.act f) :=
  .both_act hp hpos fun s m h => by rwa [hmem] at h

theorem reads_both_act {f : State → Mem → State × Mem} (hp : ReadsName mangled X k p)
    (hf : ∀ s m, OutputOnly (s, m) (f s m)) : ReadsName mangled X k (p &&& Parser.act f) :=
  .both_act hp (fun s m => (hf s m).mangledCur) fun s m h => h.of_suffix (hf s m).trace

theorem reads_both_appending (hp : ReadsName mangled X k p) (text : String) :
    ReadsName mangled X k (p &&& appending text) :=
  reads_both_act hp (maybeAppend_outputOnly text.toList)

end

/-- A table whose entries are found by the characters at the cursor. -/
theorem reads_table {α : Type} {table : List α} {test : State → α → Bool} {key : α → List Char}
    {f : α → State → Mem → State × Mem}
    (hkey : ∀ s p, p ∈ table → test s p = true →
      mangled.chars.extract s.mangledCur (s.mangledCur + (key p).length) = key p)
    (hpos : ∀ s m p, (f p s m).1.mangledCur = s.mangledCur + (key p).length)
    (htrace : ∀ s m p, m.trace <:+ (f p s m).2.trace) :
    ReadsName mangled (keys table key) true (Parser.lookup (fun s => table.find? (test s)) f) := by
  refine .lookup (fun s m p hp => ?_) fun s m p h => h.of_suffix (htrace s m p)
  rw [hpos]
  refine ⟨Nat.le_add_right _ _, p, List.mem_of_find?_eq_some hp, ?_⟩
  exact hkey s p (List.mem_of_find?_eq_some hp) (List.find?_some hp)

theorem reads_operatorList :
    ReadsName mangled (keys operatorList fun p => [p.1.1, p.1.2]) true (parseOperatorList mangled) := by
  refine reads_table (fun s p hp h => ?_) (fun s m p => ?_) fun s m p => (appendOperator_outputOnly ..).trace
  · have hne : ∀ p ∈ operatorList, p.1.1 ≠ '\x00' ∧ p.1.2 ≠ '\x00' := by decide
    simp only [Bool.and_eq_true, beq_iff_eq] at h
    exact extract_two h.1 h.2 (hne p hp).1 (hne p hp).2
  · exact congrArg (· + 2) (appendOperator_outputOnly p.2.toList s m).mangledCur

theorem reads_builtinTypeList :
    ReadsName mangled (keys builtinTypeList fun p => [p.1]) true (parseBuiltinTypeList mangled) := by
  refine reads_table (fun s p hp h => ?_) (fun s m p => ?_) fun s m p => (maybeAppend_outputOnly ..).trace
  · have hne : ∀ p ∈ builtinTypeList, p.1 ≠ '\x00' := by decide
    exact extract_succ (beq_iff_eq.mp h) (hne p hp)
  · exact congrArg (· + 1) (maybeAppend_outputOnly p.2.toList s m).mangledCur

theorem reads_substitutionList :
    ReadsName mangled (keys substitutionList fun p => [p.1]) true (parseSubstitutionList mangled) := by
  refine reads_table (fun s p hp h => ?_) (fun s m p => ?_) fun s m p => (appendSubstitution_outputOnly ..).trace
  · have hne : ∀ p ∈ substitutionList, p.1 ≠ '\x00' := by decide
    exact extract_succ (beq_iff_eq.mp h) (hne p hp)
  · exact congrArg (· + 1) (appendSubstitution_outputOnly p.2.toList s m).mangledCur

theorem extract_takeWhile (i : Nat) (c : Char → Bool) :
    mangled.chars.extract i (i + ((mangled.rest i).takeWhile c).length) = (mangled.rest i).takeWhile c := by
  rw [List.extract_eq_take_drop, Nat.add_sub_cancel_left]
  exact ((List.prefix_iff_eq_take).mp (List.takeWhile_prefix c)).symm

theorem reads_parseRun (c : Char → Bool) : ReadsName mangled (run1 c) true (parseRun mangled c) := by
  refine .lookup (fun s m count h => ?_) fun s m _ h => h
  dsimp only at h
  split at h
  · cases h
  · rename_i hcount
    cases h
    refine ⟨Nat.le_add_right _ _, ?_⟩
    change mangled.chars.extract s.mangledCur (s.mangledCur + _) ∈ run1 c
    rw [extract_takeWhile]
    exact ⟨fun h => hcount (by rw [h]; rfl), fun x hx => List.mem_takeWhile_imp hx⟩

/-! ### Numbers -/

/-- A number is a run of digits of its value, after an `n` if it is negative. -/
theorem parseNumber_reads {s : State} {n : Int} (h : (parseNumber mangled s).1 = some n) :
    s.mangledCur ≤ (parseNumber mangled s).2.mangledCur ∧
    (s.char mangled 0 ≠ 'n' ∧ 0 ≤ n ∧
      mangled.chars.extract s.mangledCur (parseNumber mangled s).2.mangledCur ∈ digitsOf n.toNat ∨
    s.char mangled 0 = 'n' ∧ n ≤ 0 ∧
      mangled.chars.extract s.mangledCur (parseNumber mangled s).2.mangledCur ∈ chr 'n' * digits) := by
  refine ⟨(parseNumber_moves s).1, ?_⟩
  have hnumber := isNumber_of_some h
  have hword : mangled.chars.extract (numeralStart mangled s) (numeralStart mangled s + (numeral mangled s).length) =
      numeral mangled s := extract_takeWhile ..
  have hdigits : numeral mangled s ∈ digits := ⟨hnumber.1, fun x hx => List.mem_takeWhile_imp hx⟩
  rw [parseNumber_of_isNumber hnumber] at h ⊢
  obtain rfl := Option.some.inj h
  dsimp only
  by_cases hn : s.char mangled 0 = 'n'
  · right
    have hstart : numeralStart mangled s = s.mangledCur + 1 := if_pos (beq_iff_eq.mpr hn)
    rw [if_pos (beq_iff_eq.mpr hn)]
    refine ⟨hn, by omega, ?_⟩
    have hchar : mangled.chars.extract s.mangledCur (numeralStart mangled s) ∈ chr 'n' := by
      rw [hstart]
      exact extract_char mangled hn (by decide)
    rw [← extract_append mangled.chars (show s.mangledCur ≤ numeralStart mangled s by omega) (Nat.le_add_right _ _), hword]
    exact Language.append_mem_mul hchar hdigits
  · left
    have hstart := numeralStart_of_ne hn
    rw [beq_false_of_ne hn, if_neg Bool.false_ne_true]
    refine ⟨hn, Int.natCast_nonneg _, ?_⟩
    rw [← hstart, hword, Int.toNat_natCast]
    exact ⟨hdigits, rfl⟩

theorem reads_number : ReadsName mangled (opt (chr 'n') * digits) false (parseNumberToken mangled) :=
  fun s m b s' m' h hm => by
    rcases reading_eq_some h with ⟨n, hn, h⟩ | ⟨-, rfl, rfl, rfl⟩
    · cases h
      obtain ⟨hle, hword⟩ := parseNumber_reads hn
      refine ⟨hm, hle, fun _ => ?_, nofun⟩
      rcases hword with ⟨-, -, hword⟩ | ⟨-, -, hword⟩
      · exact Language.append_mem_mul nil_mem_opt hword.1
      · exact mul_le_mul' (le_opt _) le_rfl hword
    · exact ⟨hm, (parseNumber_moves s).1, nofun, nofun⟩

theorem reads_identifier (hL : ∀ f, bnf L f ≤ L f) (length : Int) :
    ReadsName mangled (L (.identifier length)) true (parseIdentifier mangled length) := fun s m b s' m' h hm => by
  have hframe := appendIdentifier_outputOnly mangled length s m
  cases b with
  | false =>
    have hs' := leaves_identifier length h
    subst hs'
    refine ⟨?_, le_rfl, nofun, fun _ _ => rfl⟩
    unfold parseIdentifier at h
    split at h
    · cases h
      exact hm
    · dsimp only at h
      split at h
      · simp only [Option.some.injEq, Prod.mk.injEq] at h
        rw [h.2] at hframe
        exact hm.of_suffix hframe.trace
      · cases h
  | true =>
    unfold parseIdentifier at h
    split at h
    · cases h
    · dsimp only at h
      split at h
      · cases h
      · rename_i hlong
        simp only [Option.some.injEq, Prod.mk.injEq] at h
        obtain ⟨-, rfl, rfl⟩ := h
        have hcur : ((appendIdentifier mangled length s m).1.advance length.toNat).mangledCur =
            s.mangledCur + length.toNat := congrArg (· + length.toNat) hframe.mangledCur
        refine ⟨hm.of_suffix hframe.trace, by rw [hcur]; exact Nat.le_add_right _ _, fun _ => ?_, nofun⟩
        refine hL (.identifier length) ?_
        change ((mangled.chars.extract _ _).length : Int) = length
        rw [hcur, List.extract_eq_take_drop, Nat.add_sub_cancel_left, List.length_take]
        change ((min length.toNat (mangled.rest s.mangledCur).length : Nat) : Int) = length
        omega

theorem reads_qualifier (mangled : CString) {c : Char} (hc : c ≠ '\x00') (s : State) :
    s.mangledCur ≤ (if s.char mangled 0 = c then s.advance 1 else s).mangledCur ∧
    mangled.chars.extract s.mangledCur (if s.char mangled 0 = c then s.advance 1 else s).mangledCur ∈
      opt (chr c) := by
  split
  · rename_i hchar
    exact ⟨Nat.le_succ _, mem_opt (extract_char mangled hchar hc)⟩
  · refine ⟨le_rfl, ?_⟩
    rw [extract_self]
    exact nil_mem_opt

theorem reads_cvQualifiers :
    ReadsName mangled (opt (chr 'r') * opt (chr 'V') * opt (chr 'K')) true (parseCVQualifiers mangled) := by
  refine .lookup (fun s m _ _ => ?_) fun s m _ h => h
  change s.mangledCur ≤ (cvQualifiers mangled s).mangledCur ∧
    mangled.chars.extract s.mangledCur (cvQualifiers mangled s).mangledCur ∈ _
  unfold cvQualifiers
  dsimp only
  obtain ⟨h₁, hr⟩ := reads_qualifier mangled (c := 'r') (by decide) s
  generalize (if s.char mangled 0 = 'r' then s.advance 1 else s) = s₁ at h₁ hr ⊢
  obtain ⟨h₂, hV⟩ := reads_qualifier mangled (c := 'V') (by decide) s₁
  generalize (if s₁.char mangled 0 = 'V' then s₁.advance 1 else s₁) = s₂ at h₂ hV ⊢
  obtain ⟨h₃, hK⟩ := reads_qualifier mangled (c := 'K') (by decide) s₂
  refine ⟨(h₁.trans h₂).trans h₃, ?_⟩
  rw [← extract_append _ (h₁.trans h₂) h₃, ← extract_append _ h₁ h₂]
  exact Language.append_mem_mul (Language.append_mem_mul hr hV) hK

theorem token_eq_true {token : Char} {s s' : State} {m m' : Mem}
    (h : parseOneCharToken mangled token s m = some (true, s', m')) :
    s.char mangled 0 = token ∧ s' = s.advance 1 := by
  obtain ⟨hchar, hs'⟩ := tests_token h
  rw [← hchar, if_pos rfl] at hs'
  exact ⟨beq_iff_eq.mp hchar.symm, hs'⟩

/-! ### Functions whose answer is known -/

/-- What is known of an answer without the grammar. -/
def Known (mangled : CString) : Func → State → Bool → State → Prop
  | .number, s, b, s' => b = (parseNumber mangled s).1.isSome ∧ s' = (parseNumber mangled s).2
  | .cvQualifiers, s, _, s' => s'.mangledCur = (cvQualifiers mangled s).mangledCur
  | .identifier length, s, b, _ => (b = true → 0 ≤ length) ∧
    (0 ≤ length → atLeastNumCharsRemaining mangled s.mangledCur length.toNat = true → b = true)
  | .sourceName, s, b, _ => sourceNameAt mangled s = true → b = true
  | .abiTag, s, b, s' => b = false →
    s' = s ∨ s.char mangled 0 = 'B' ∧ sourceNameAt mangled (s.advance 1) = false
  | _, _, _, _ => True

theorem known_identifier {length : Int} {s s' : State} {m m' : Mem} {b : Bool}
    (h : parseIdentifier mangled length s m = some (b, s', m')) : Known mangled (.identifier length) s b s' := by
  unfold parseIdentifier at h
  split at h
  · rename_i hcount
    cases h
    refine ⟨nofun, fun hlen hmany => ?_⟩
    rcases hcount with hcount | hcount
    · omega
    · rw [hcount] at hmany
      cases hmany
  · dsimp only at h
    split at h
    · rename_i hshort
      simp only [Option.some.injEq, Prod.mk.injEq] at h
      obtain ⟨rfl, -⟩ := h
      refine ⟨nofun, fun hlen hmany => ?_⟩
      have := atLeastNumCharsRemaining_length mangled hmany
      omega
    · rename_i hlong
      simp only [Option.some.injEq, Prod.mk.injEq] at h
      obtain ⟨rfl, -⟩ := h
      exact ⟨fun _ => by omega, fun _ _ => rfl⟩

theorem cvQualifiers_eq_self {s : State} (h : ¬ (cvQualifiers mangled s).mangledCur > s.mangledCur) :
    (cvQualifiers mangled s).mangledCur = s.mangledCur := by
  refine Nat.le_antisymm (Nat.le_of_not_lt h) ?_
  unfold cvQualifiers
  dsimp only
  have hstep : ∀ (t : State) (c : Char), t.mangledCur ≤ (if t.char mangled 0 = c then t.advance 1 else t).mangledCur := by
    intro t c
    split
    · exact Nat.le_succ _
    · exact le_rfl
  exact ((hstep s 'r').trans (hstep _ 'V')).trans (hstep _ 'K')

theorem known_cvQualifiers {s s' : State} {m m' : Mem} {b : Bool}
    (h : parseCVQualifiers mangled s m = some (b, s', m')) : Known mangled .cvQualifiers s b s' := by
  rcases lookup_eq_some h with ⟨x, -, -, h⟩ | ⟨hx, -, rfl, -⟩
  · cases h
    rfl
  · refine (cvQualifiers_eq_self fun hgt => ?_).symm
    rw [if_pos hgt] at hx
    cases hx

section
variable {call : Func → P}

theorem known_body (hknown : ∀ g s m b s' m', call g s m = some (b, s', m') → Known mangled g s b s')
    {f : Func} {s s' : State} {m m' : Mem} {b : Bool} (h : body mangled call f s m = some (b, s', m')) :
    Known mangled f s b s' := by
  cases f with
  | number =>
    rcases reading_eq_some h with ⟨n, hn, h⟩ | ⟨hn, rfl, rfl, -⟩
    · cases h
      exact ⟨by rw [hn]; rfl, rfl⟩
    · exact ⟨by rw [hn]; rfl, rfl⟩
  | cvQualifiers => exact known_cvQualifiers h
  | identifier length => exact known_identifier h
  | sourceName =>
    intro hat
    change parseSourceName mangled call s m = _ at h
    unfold parseSourceName at h
    obtain ⟨s₁, hread, -⟩ := retry_eq_some h
    unfold sourceNameAt at hat
    rcases reading_eq_some hread with ⟨length, hn, hid⟩ | ⟨hn, -⟩
    · rw [show parseNumber mangled s = (some length, (parseNumber mangled s).2) from Prod.ext hn rfl] at hat
      simp only [Bool.and_eq_true, decide_eq_true_eq] at hat
      exact (hknown _ _ _ _ _ _ hid).2 (by omega) hat.2
    · rw [show parseNumber mangled s = (none, (parseNumber mangled s).2) from Prod.ext hn rfl] at hat
      cases hat
  | abiTag =>
    intro hb
    subst hb
    obtain ⟨v, s₁, m₁, h₁, h₂⟩ := branch_eq_some h
    cases v with
    | true =>
      obtain ⟨hB, rfl⟩ := token_eq_true h₁
      refine Or.inr ⟨hB, Bool.eq_false_iff.mpr fun hat => ?_⟩
      cases hknown _ _ _ _ _ _ h₂ hat
    | false =>
      cases h₂
      exact Or.inl (leaves_token h₁)
  | _ => trivial

/-! ### The parse functions -/

/-- The functions that can slip. -/
def canSlip : Func → Bool
  | .sourceName | .nestedName | .templateParam | .zeroOrMore .abiTag => true
  | _ => false

/-! ### Inclusions of languages -/

theorem mul_kstar_add_one_le (X : Language Char) : X * X∗ + 1 ≤ X∗ :=
  add_le mul_kstar_le_kstar one_le_kstar

theorem abiTags_le (hL : ∀ f, bnf L f ≤ L f) : L .abiTag * (L .abiTag)∗ ≤ L .abiTags := by
  have htags : L .abiTag * opt (L .abiTags) ≤ L .abiTags := hL .abiTags
  rw [← Language.mul_self_kstar_comm]
  refine kstar_mul_le (le_trans ?_ htags) (le_trans (mul_le_mul' le_rfl (le_opt _)) htags)
  calc L .abiTag = L .abiTag * 1 := (mul_one _).symm
    _ ≤ L .abiTag * opt (L .abiTags) := mul_le_mul' le_rfl (one_le_opt _)

theorem namePrefix_le (hL : ∀ f, bnf L f ≤ L f) :
    (L .templateParam + L .substitution + L .unscopedName) * (opt (L .templateArgs) * opt (L .namePrefix)) ≤
      L .namePrefix := by
  rw [← mul_assoc]
  exact hL .namePrefix

/-- An iteration of `ParsePrefix`, where `X` is read after the names of this one. -/
theorem reads_prefixLoop {X : Language Char} {hasSomething : Bool}
    (hcall : ∀ g, ReadsName mangled (accepted L g) (keepsCursor g) (call g))
    (hargs : ReadsName mangled X true (Parser.ensure (fun _ => hasSomething) &&& call .templateArgs)) :
    ReadsName mangled ((L .templateParam + L .substitution + L .unscopedName) *
      (opt (L .templateArgs) * opt (L .namePrefix)) + (X * opt (L .namePrefix) + 1)) false
      (parsePrefixLoop call hasSomething) :=
  .both_stays (reads_act maybeAppendSeparator_outputOnly)
    (.act fun s m => (maybeAppendSeparator_outputOnly s m).mangledCur)
    (.branch (.either (.either (hcall .templateParam) (hcall .substitution)) (hcall .unscopedName))
      (reads_set_both (hcall (.namePrefixLoop true)) maybeIncreaseNestLevel_mangledCur maybeIncreaseNestLevel_mem)
      (.both_stays (reads_act maybeCancelLastSeparator_outputOnly)
        (.act fun s m => (maybeCancelLastSeparator_outputOnly s m).mangledCur)
        (.branch hargs (hcall .namePrefix) (.ret true))))

/-- Alternatives of one nonterminal follow its right hand side. -/
theorem reads_body (hL : ∀ f, bnf L f ≤ L f)
    (hcall : ∀ g, ReadsName mangled (accepted L g) (keepsCursor g) (call g)) (f : Func) (hf : canSlip f = false) :
    ReadsName mangled (accepted L f) (keepsCursor f) (body mangled call f) := by
  cases f with
  | mangledName => exact .mono (.both reads_twoCharToken (hcall .encoding)) (hL .mangledName)
  | encoding =>
    exact .mono (.either (.either (.retry fun _ => .both (hcall .name) (hcall .bareFunctionType))
      (hcall .name)) (hcall .specialName)) (hL .encoding)
  | name =>
    exact .mono (.either (.either (.either (hcall .nestedName) (hcall .localName))
      (.retry fun _ => .both (hcall .unscopedTemplateName) (hcall .templateArgs))) (hcall .unscopedName)) (hL .name)
  | unscopedName =>
    exact .mono (.either (hcall .unqualifiedName)
      (.retry fun _ => .both (reads_both_appending reads_twoCharToken _) (hcall .unqualifiedName))) (hL .unscopedName)
  | unscopedTemplateName =>
    exact .mono (.either (hcall .unscopedName) (hcall .substitution)) (hL .unscopedTemplateName)
  | namePrefix => exact .mono (hcall (.namePrefixLoop false)) le_rfl
  | namePrefixLoop hasSomething =>
    cases hasSomething with
    | false =>
      refine .mono (reads_prefixLoop hcall .never) (add_le ((namePrefix_le hL).trans (le_opt _)) ?_)
      rw [zero_mul, zero_add]
      exact one_le_opt _
    | true =>
      refine .mono (reads_prefixLoop hcall (.both_stays .ensure .ensure (hcall .templateArgs)))
        (add_le (((namePrefix_le hL).trans (le_opt _)).trans ?_) (add_le (mul_le_mul' (le_opt _) le_rfl) ?_))
      · calc opt (L .namePrefix) = 1 * opt (L .namePrefix) := (one_mul _).symm
          _ ≤ opt (L .templateArgs) * opt (L .namePrefix) := mul_le_mul' (one_le_opt _) le_rfl
      · exact one_le_mul (one_le_opt _) (one_le_opt _)
  | unqualifiedName =>
    exact .mono (.either (.either (.either (hcall .operatorName) (hcall .ctorDtorName))
      (.both_accepts (hcall .sourceName) (.optional (hcall .abiTags)) .optional))
      (.both_accepts (hcall .localSourceName) (.optional (hcall .abiTags)) .optional)) (hL .unqualifiedName)
  | localSourceName =>
    exact .mono (.retry fun _ => .both (.both reads_token (hcall .sourceName))
      (.optional (hcall .discriminator))) (hL .localSourceName)
  | number => exact .mono reads_number (hL .number)
  | floatNumber => exact .mono (reads_parseRun _) (hL .floatNumber)
  | seqId => exact .mono (reads_parseRun _) (hL .seqId)
  | identifier length => exact reads_identifier hL length
  | abiTags =>
    exact .mono (.retry fun _ => reads_both_set (reads_set_both (hcall (.oneOrMore .abiTag)))) (abiTags_le hL)
  | abiTag => exact .mono (.both reads_token (hcall .sourceName)) (hL .abiTag)
  | operatorName =>
    exact .mono (.both_stays .ensure .ensure (.either (.either
      (.retry fun _ => reads_both_set (.both (reads_both_set (reads_both_appending reads_twoCharToken _))
        (hcall .type)))
      (.retry fun _ => .both (.both reads_token reads_charClass) (hcall .sourceName)))
      (.both_stays .ensure .ensure reads_operatorList))) (hL .operatorName)
  | specialName =>
    exact .mono (.either (.either (.either (.either (.either (.either (.either (.either
      (.retry fun _ => .both (.both reads_token reads_charClass) (hcall .type))
      (.retry fun _ => .both (.both (.both reads_twoCharToken (hcall .callOffset)) (hcall .callOffset))
        (hcall .encoding))) (.retry fun _ => .both reads_twoCharToken (hcall .name)))
      (.retry fun _ => .both (.both reads_token (hcall .callOffset)) (hcall .encoding)))
      (.retry fun _ => reads_both_set (.both (reads_both_set (.both (.both (.both reads_twoCharToken (hcall .type))
        (hcall .number)) reads_token)) (hcall .type))))
      (.retry fun _ => .both (.both reads_token reads_charClass) (hcall .type)))
      (.retry fun _ => .both reads_twoCharToken (hcall .name)))
      (.retry fun _ => .both reads_twoCharToken (hcall .encoding)))
      (.retry fun _ => .both (.both (.both reads_token reads_charClass) (hcall .callOffset))
        (hcall .encoding))) (hL .specialName)
  | callOffset =>
    exact .mono (.either (.retry fun _ => .both (.both reads_token (hcall .nvOffset)) reads_token)
      (.retry fun _ => .both (.both reads_token (hcall .vOffset)) reads_token)) (hL .callOffset)
  | nvOffset => exact .mono (hcall .number) (hL .nvOffset)
  | vOffset =>
    exact .mono (.retry fun _ => .both (.both (hcall .number) reads_token) (hcall .number)) (hL .vOffset)
  | ctorDtorName =>
    exact .mono (.either
      (.retry fun _ => reads_both_act (.both reads_token reads_charClass) replayName_outputOnly)
      (.retry fun _ => reads_both_act (.both reads_token reads_charClass) replayDtorName_outputOnly))
      (hL .ctorDtorName)
  | type =>
    exact .mono (.either (.either (.either (.either (.either (.either
      (.retry fun _ => .both (hcall .cvQualifiers) (hcall .type))
      (.retry fun _ => .both reads_charClass (hcall .type)))
      (.retry fun _ => .both reads_twoCharToken (hcall .type)))
      (.retry fun _ => .both (.both (.both reads_token reads_charClass) (hcall .expression)) reads_token))
      (.retry fun _ => .both (.both reads_token (hcall .sourceName)) (hcall .type)))
      (.retry fun _ => .either (.either (.either (.either (.either (.either (hcall .builtinType)
        (hcall .functionType)) (hcall .classEnumType)) (hcall .arrayType))
        (hcall .pointerToMemberType)) (hcall .substitution))
        (.both (hcall .templateTemplateParam) (hcall .templateArgs)))) (hcall .templateParam)) (hL .type)
  | cvQualifiers => exact .mono reads_cvQualifiers (hL .cvQualifiers)
  | builtinType =>
    exact .mono (.either reads_builtinTypeList (.retry fun _ => .both reads_token (hcall .sourceName)))
      (hL .builtinType)
  | functionType =>
    exact .mono (.retry fun _ => .both (.both (.both reads_token (.optional reads_token))
      (hcall .bareFunctionType)) reads_token) (hL .functionType)
  | bareFunctionType =>
    exact .mono (.retry fun _ => reads_both_appending (reads_both_set (reads_set_both (hcall (.oneOrMore .type)))) _)
      (hL .bareFunctionType)
  | classEnumType => exact .mono (hcall .name) (hL .classEnumType)
  | arrayType =>
    exact .mono (.either
      (.retry fun _ => .both (.both (.both reads_token (hcall .number)) reads_token) (hcall .type))
      (.retry fun _ => .both (.both (.both reads_token (.optional (hcall .expression))) reads_token)
        (hcall .type))) (hL .arrayType)
  | pointerToMemberType =>
    exact .mono (.retry fun _ => .both (.both reads_token (hcall .type)) (hcall .type)) (hL .pointerToMemberType)
  | templateTemplateParam =>
    exact .mono (.either (hcall .templateParam) (hcall .substitution)) (hL .templateTemplateParam)
  | templateArgs =>
    exact .mono (.retry fun _ => reads_both_appending (reads_both_set (.both (.both (reads_set_both reads_token)
      (hcall (.oneOrMore .templateArg))) reads_token)) _) (hL .templateArgs)
  | templateArg =>
    exact .mono (.both_stays (.both_stays .ensure .ensure (reads_set (fun _ _ => rfl) fun _ _ => rfl))
      (.both .ensure (.act fun _ _ => rfl))
      (.either (.either
        (.retry fun _ => reads_both_set (.both (.both (.either reads_token reads_token)
          (hcall (.zeroOrMore .templateArg))) reads_token))
        (.retry fun _ => reads_both_set (.either (hcall .type) (hcall .exprPrimary))))
        (.retry fun _ => reads_both_set (.both (.both reads_token (hcall .expression)) reads_token))))
      (hL .templateArg)
  | expression =>
    exact .mono (.either (.either (hcall .templateParam) (hcall .exprPrimary))
      (.both_stays (.both_stays .ensure .ensure (reads_set (fun _ _ => rfl) fun _ _ => rfl))
        (.both .ensure (.act fun _ _ => rfl))
        (.either (.either (.either (.either (.either
          (.retry fun _ => reads_both_set (.both (.both (.both (hcall .operatorName) (hcall .expression))
            (hcall .expression)) (hcall .expression)))
          (.retry fun _ => reads_both_set (.both (.both (hcall .operatorName) (hcall .expression))
            (hcall .expression))))
          (.retry fun _ => reads_both_set (.both (hcall .operatorName) (hcall .expression))))
          (.retry fun _ => .both reads_twoCharToken (hcall .type)))
          (.retry fun _ => reads_both_set (.both (.both (.both reads_twoCharToken (hcall .type))
            (hcall .unqualifiedName)) (hcall .templateArgs))))
          (.retry fun _ => reads_both_set (.both (.both reads_twoCharToken (hcall .type))
            (hcall .unqualifiedName)))))) (hL .expression)
  | exprPrimary =>
    exact .mono (.either (.either (.either
      (.retry fun _ => .both (.both (.both reads_token (hcall .type)) (hcall .number)) reads_token)
      (.retry fun _ => .both (.both (.both reads_token (hcall .type)) (hcall .floatNumber)) reads_token))
      (.retry fun _ => .both (.both reads_token (hcall .mangledName)) reads_token))
      (.retry fun _ => .both (.both reads_twoCharToken (hcall .encoding)) reads_token)) (hL .exprPrimary)
  | localName =>
    exact .mono (.both_stays (.both_stays .ensure .ensure (reads_set (fun _ _ => rfl) fun _ _ => rfl))
      (.both .ensure (.act fun _ _ => rfl))
      (.either
        (.retry fun _ => reads_both_set (.both (.both (reads_both_appending (.both (.both reads_token
          (hcall .encoding)) reads_token) _) (hcall .name)) (.optional (hcall .discriminator))))
        (.retry fun _ => reads_both_set (.both (.both (.both reads_token (hcall .encoding)) reads_twoCharToken)
          (.optional (hcall .discriminator)))))) (hL .localName)
  | discriminator => exact .mono (.retry fun _ => .both reads_token (hcall .number)) (hL .discriminator)
  | substitution =>
    exact .mono (.either (.either (reads_both_appending reads_twoCharToken _)
      (.retry fun _ => reads_both_appending (.both (.both reads_token (hcall .seqId)) reads_token) _))
      (.retry fun _ => .both reads_token reads_substitutionList)) (hL .substitution)
  | topLevelMangledName =>
    refine .mono (.both (hcall .mangledName) (.branch .ensure (.either .ensure
      (.both_stays .ensure .ensure (reads_act fun s m => maybeAppend_outputOnly ..))) (.ret true))) ?_
    rw [one_mul, add_idem, add_idem, mul_one]
    exact le_rfl
  | oneOrMore item =>
    have hitem : accepted L item.func = L item.func := by cases item <;> rfl
    have hread := hcall item.func
    rw [hitem] at hread
    exact .mono (.both hread (hcall (.zeroOrMore item))) le_rfl (Bool.false_le _)
  | zeroOrMore item =>
    cases item with
    | abiTag => cases hf
    | type => exact .mono (.branch (hcall .type) (hcall (.zeroOrMore .type)) (.ret true)) (mul_kstar_add_one_le _)
    | templateArg =>
      exact .mono (.branch (hcall .templateArg) (hcall (.zeroOrMore .templateArg)) (.ret true)) (mul_kstar_add_one_le _)
  | sourceName | nestedName | templateParam => cases hf

/-- `ParseSourceName` at a length other than zero. -/
theorem reads_sourceName (hL : ∀ f, bnf L f ≤ L f)
    (hcall : ∀ g, ReadsName mangled (accepted L g) (keepsCursor g) (call g))
    (hknown : ∀ g s m b s' m', call g s m = some (b, s', m') → Known mangled g s b s') {s s' : State} {m m' : Mem}
    {b : Bool} (h : parseSourceName mangled call s m = some (b, s', m')) (hm : NoSlips mangled m')
    (hs : NoSlips mangled m → slips mangled .sourceName s = false) :
    NoSlips mangled m ∧ s.mangledCur ≤ s'.mangledCur ∧
      (b = true → mangled.chars.extract s.mangledCur s'.mangledCur ∈ L .sourceName) ∧
      (b = false → s'.mangledCur = s.mangledCur) := by
  unfold parseSourceName at h
  obtain ⟨s₁, hread, rfl⟩ := retry_eq_some h
  rcases reading_eq_some hread with ⟨length, hn, hid⟩ | ⟨hn, rfl, rfl, rfl⟩
  · obtain ⟨hm₀, hle₁, hword₁, -⟩ := hcall (.identifier length) hid hm
    cases b with
    | false => exact ⟨hm₀, le_rfl, nofun, fun _ => rfl⟩
    | true =>
      obtain ⟨hle, hword⟩ := parseNumber_reads hn
      refine ⟨hm₀, hle.trans hle₁, fun _ => ?_, nofun⟩
      have hnonneg : 0 ≤ length := (hknown _ _ _ _ _ _ hid).1 rfl
      have hne : length ≠ 0 := fun h0 => by
        have hslip := hs hm₀
        simp [slips, hn, h0] at hslip
      rcases hword with ⟨-, -, hword⟩ | ⟨-, hneg, -⟩
      · refine hL .sourceName ⟨length.toNat, by omega, ?_⟩
        rw [if_pos rfl, ← extract_append _ hle hle₁, Int.toNat_of_nonneg hnonneg]
        exact Language.append_mem_mul hword (hword₁ rfl)
      · omega
  · exact ⟨hm, le_rfl, nofun, fun _ => rfl⟩

theorem cvQualifiers_congr {s t : State} (h : s.mangledCur = t.mangledCur) :
    (cvQualifiers mangled s).mangledCur = (cvQualifiers mangled t).mangledCur := by
  have hstep : ∀ (c : Char) {s t : State}, s.mangledCur = t.mangledCur →
      (if s.char mangled 0 = c then s.advance 1 else s).mangledCur =
        (if t.char mangled 0 = c then t.advance 1 else t).mangledCur := by
    intro c s t h
    have hchar : s.char mangled 0 = t.char mangled 0 := by rw [State.char, State.char, h]
    rw [hchar]
    split
    · exact congrArg (· + 1) h
    · exact h
  exact hstep 'K' (hstep 'V' (hstep 'r' h))

/-- Where `ParseNestedName` stands after the qualifiers. -/
theorem nestedName_head
    (hknown : ∀ g s m b s' m', call g s m = some (b, s', m') → Known mangled g s b s') {s s' : State} {m m' : Mem}
    (h : (parseOneCharToken mangled 'N' &&& enterNestedName &&& Parser.optional (call .cvQualifiers)) s m =
      some (true, s', m')) :
    s.char mangled 0 = 'N' ∧ s'.mangledCur = (cvQualifiers mangled (s.advance 1)).mangledCur := by
  obtain ⟨t, m₁, hN, hopt⟩ := both_eq_true h
  obtain ⟨s₁, m₀, hN, henter⟩ := both_eq_true hN
  obtain ⟨hchar, rfl⟩ := token_eq_true hN
  obtain ⟨-, henter⟩ := act_eq_some henter
  cases henter
  refine ⟨hchar, ?_⟩
  obtain ⟨v, s₂, m₂, hcv, hret⟩ := branch_eq_some hopt
  have hcur : s₂.mangledCur = (cvQualifiers mangled _).mangledCur := hknown _ _ _ _ _ _ hcv
  have hs' : s' = s₂ := by cases v <;> cases hret <;> rfl
  rw [hs', hcur]
  exact cvQualifiers_congr rfl

/-- `ParseNestedName` with something between the qualifiers and the `E`. -/
theorem reads_nestedName (hL : ∀ f, bnf L f ≤ L f)
    (hcall : ∀ g, ReadsName mangled (accepted L g) (keepsCursor g) (call g))
    (hknown : ∀ g s m b s' m', call g s m = some (b, s', m') → Known mangled g s b s') {s s' : State} {m m' : Mem}
    {b : Bool} (h : parseNestedName mangled call s m = some (b, s', m')) (hm : NoSlips mangled m')
    (hs : NoSlips mangled m → slips mangled .nestedName s = false) :
    NoSlips mangled m ∧ s.mangledCur ≤ s'.mangledCur ∧
      (b = true → mangled.chars.extract s.mangledCur s'.mangledCur ∈ L .nestedName) ∧
      (b = false → s'.mangledCur = s.mangledCur) := by
  unfold parseNestedName at h
  obtain ⟨s₁, hbody, rfl⟩ := retry_eq_some h
  have hhead : ReadsName mangled (chr 'N' * opt (L .cvQualifiers)) false
      (parseOneCharToken mangled 'N' &&& enterNestedName &&& Parser.optional (call .cvQualifiers)) :=
    .both (reads_both_set reads_token) (.optional (hcall .cvQualifiers))
  cases b with
  | false =>
    exact ⟨(((reads_both_set (hhead.both (hcall .namePrefix))).both reads_token) hbody hm).1, le_rfl, nofun, fun _ => rfl⟩
  | true =>
    -- The states after the qualifiers (`s₂`), after the prefix (`s₃`) and before the `E` (`s₄`).
    obtain ⟨s₄, m₄, hleave, hE⟩ := both_eq_true hbody
    obtain ⟨s₃, m₃, hfront, hset⟩ := both_eq_true hleave
    obtain ⟨s₂, m₂, hqual, hfront⟩ := both_eq_true hfront
    obtain ⟨-, hset⟩ := act_eq_some hset
    cases hset
    obtain ⟨hm₃, hle₃, hword₃, -⟩ := (reads_token : ReadsName mangled (chr 'E') true _) hE hm
    obtain ⟨hm₂, hle₂, hword₂, -⟩ := hcall .namePrefix hfront hm₃
    obtain ⟨hm₀, hle₀, hword₀, -⟩ := hhead hqual hm₂
    refine ⟨hm₀, (hle₀.trans hle₂).trans hle₃, fun _ => ?_, nofun⟩
    have hne : mangled.chars.extract s₂.mangledCur s₃.mangledCur ∈ L .namePrefix := by
      refine (hword₂ rfl).resolve_left fun hnil => ?_
      obtain ⟨hN, hcur⟩ := nestedName_head hknown hqual
      have hchar : s₃.char mangled 0 = 'E' := (token_eq_true hE).1
      have hlt : s₃.mangledCur < mangled.chars.length := lt_length_of_char mangled hchar (by decide)
      have hempty : (cvQualifiers mangled (s.advance 1)).char mangled 0 = 'E' := by
        rw [State.char, ← hcur, ← eq_of_extract_nil hle₂ hlt hnil]
        exact hchar
      have hslip := hs hm₀
      simp [slips, hN, hempty] at hslip
    refine hL .nestedName ?_
    change mangled.chars.extract s.mangledCur s₁.mangledCur ∈ _
    rw [← extract_append _ (hle₀.trans hle₂) hle₃, ← extract_append _ hle₀ hle₂]
    exact Language.append_mem_mul (Language.append_mem_mul (hword₀ rfl) hne) (hword₃ rfl)

/-- `ParseTemplateParam` at a number without a sign. -/
theorem reads_templateParam (hL : ∀ f, bnf L f ≤ L f)
    (hcall : ∀ g, ReadsName mangled (accepted L g) (keepsCursor g) (call g))
    (hknown : ∀ g s m b s' m', call g s m = some (b, s', m') → Known mangled g s b s') {s s' : State} {m m' : Mem}
    {b : Bool} (h : parseTemplateParam mangled call s m = some (b, s', m')) (hm : NoSlips mangled m')
    (hs : NoSlips mangled m → slips mangled .templateParam s = false) :
    NoSlips mangled m ∧ s.mangledCur ≤ s'.mangledCur ∧
      (b = true → mangled.chars.extract s.mangledCur s'.mangledCur ∈ L .templateParam) ∧
      (b = false → s'.mangledCur = s.mangledCur) := by
  have hfirst : ReadsName mangled (two 'T' '_') true (parseTwoCharToken mangled 'T' '_' &&& appending "?") :=
    reads_both_appending reads_twoCharToken _
  unfold parseTemplateParam at h
  rcases either_eq_some h with ⟨rfl, h₁⟩ | ⟨s₁, m₁, h₁, h₂⟩
  · obtain ⟨hm₀, hle, hword, -⟩ := hfirst h₁ hm
    exact ⟨hm₀, hle, fun _ => hL .templateParam (Or.inl (hword rfl)), nofun⟩
  · obtain ⟨s₂, hbody, rfl⟩ := retry_eq_some h₂
    have hnumber : ReadsName mangled (chr 'T' * L .number) false (parseOneCharToken mangled 'T' &&& call .number) :=
      .both reads_token (hcall .number)
    have hm₁ : NoSlips mangled m₁ := ((reads_both_appending (hnumber.both reads_token) _) hbody hm).1
    have hm₀ := (hfirst h₁ hm₁).1
    have hs₁ : s₁ = s := Leaves.both_accepts .lookup .act h₁
    subst hs₁
    cases b with
    | false => exact ⟨hm₀, le_rfl, nofun, fun _ => rfl⟩
    | true =>
      obtain ⟨s₃, m₃, htail, happend⟩ := both_eq_true hbody
      obtain ⟨s₄, m₄, hhead, hlast⟩ := both_eq_true htail
      obtain ⟨s₅, m₅, hT, hnum⟩ := both_eq_true hhead
      obtain ⟨hTchar, rfl⟩ := token_eq_true hT
      obtain ⟨hLchar, rfl⟩ := token_eq_true hlast
      obtain ⟨hsome, rfl⟩ := hknown _ _ _ _ _ _ hnum
      have hcur : s₂.mangledCur = (parseNumber mangled (s₁.advance 1)).2.mangledCur + 1 := by
        have hframe := maybeAppend_outputOnly "?".toList ((parseNumber mangled (s₁.advance 1)).2.advance 1) m₃
        rw [(act_eq_some happend).2] at hframe
        exact hframe.mangledCur
      obtain ⟨n, hn⟩ := Option.isSome_iff_exists.mp hsome.symm
      obtain ⟨hle, hword⟩ := parseNumber_reads hn
      have hle₀ : s₁.mangledCur ≤ (s₁.advance 1).mangledCur := Nat.le_succ _
      refine ⟨hm₀, ?_, fun _ => hL .templateParam (Or.inr ?_), nofun⟩
      · rw [if_pos rfl, hcur]
        exact (hle₀.trans hle).trans (Nat.le_succ _)
      · have hdigits : mangled.chars.extract (s₁.advance 1).mangledCur
            (parseNumber mangled (s₁.advance 1)).2.mangledCur ∈ digits := by
          rcases hword with ⟨-, -, hword⟩ | ⟨hneg, -, -⟩
          · exact hword.1
          · have hslip := hs hm₀
            have hneg : s₁.char mangled 1 = 'n' := hneg
            simp [slips, hTchar, hneg, ← hsome, hLchar] at hslip
        rw [if_pos rfl, hcur, ← extract_append _ (hle₀.trans hle) (Nat.le_succ _), ← extract_append _ hle₀ hle]
        refine Language.append_mem_mul (Language.append_mem_mul ?_ hdigits) ?_
        · exact extract_char mangled hTchar (by decide)
        · exact extract_char mangled hLchar (by decide)

/-- The loop of `ParseAbiTags` where a `B` begins another tag. -/
theorem reads_moreAbiTags
    (hcall : ∀ g, ReadsName mangled (accepted L g) (keepsCursor g) (call g))
    (hknown : ∀ g s m b s' m', call g s m = some (b, s', m') → Known mangled g s b s')
    {s s' : State} {m m' : Mem} {b : Bool} (h : zeroOrMore call .abiTag s m = some (b, s', m'))
    (hm : NoSlips mangled m') (hs : NoSlips mangled m → slips mangled (.zeroOrMore .abiTag) s = false) :
    NoSlips mangled m ∧ s.mangledCur ≤ s'.mangledCur ∧
      (b = true → mangled.chars.extract s.mangledCur s'.mangledCur ∈ (L .abiTag)∗) := by
  unfold zeroOrMore at h
  obtain ⟨v, s₁, m₁, htag, hrest⟩ := branch_eq_some h
  cases v with
  | true =>
    obtain ⟨hm₁, hle₁, hword₁, -⟩ := hcall (.zeroOrMore .abiTag) hrest hm
    obtain ⟨hm₀, hle, hword, -⟩ := hcall .abiTag htag hm₁
    refine ⟨hm₀, hle.trans hle₁, fun hb => ?_⟩
    rw [← extract_append _ hle hle₁]
    exact mul_kstar_le_kstar (a := L .abiTag) (Language.append_mem_mul (hword rfl) (hword₁ hb))
  | false =>
    cases hrest
    obtain ⟨hm₀, -⟩ := hcall .abiTag htag hm
    rcases hknown _ _ _ _ _ _ htag rfl with rfl | hslip
    · refine ⟨hm₀, le_rfl, fun _ => ?_⟩
      rw [extract_self]
      exact Language.nil_mem_kstar _
    · have hfalse := hs hm₀
      simp [slips, hslip.1, hslip.2] at hfalse

end

/-! ### Whole runs -/

/-- Every parse function moves over words that its nonterminal derives, in a run in which no call slips. -/
theorem reads_parse (hL : ∀ f, bnf L f ≤ L f) (f : Func) :
    ReadsName mangled (accepted L f) (keepsCursor f) (parse mangled f) := by
  intro s m b s' m' h
  refine And.left (run_induct (P := fun f s m b s' m' => (NoSlips mangled m' → NoSlips mangled m ∧
    s.mangledCur ≤ s'.mangledCur ∧ (b = true → mangled.chars.extract s.mangledCur s'.mangledCur ∈ accepted L f) ∧
    (b = false → keepsCursor f = true → s'.mangledCur = s.mangledCur)) ∧ Known mangled f s b s') ?_ h)
  intro call hcall f s m b s' m' h
  have hreads : ∀ g, ReadsName mangled (accepted L g) (keepsCursor g) (call g) := fun g _ _ _ _ _ h =>
    (hcall g _ _ _ _ _ h).1
  have hknown : ∀ g s m b s' m', call g s m = some (b, s', m') → Known mangled g s b s' := fun g _ _ _ _ _ h =>
    (hcall g _ _ _ _ _ h).2
  refine ⟨fun hm => ?_, known_body hknown h⟩
  have hcalled : NoSlips mangled (noteCall f s m) → slips mangled f s = false := fun hm => hm f s (List.mem_cons_self ..)
  have hnoted : NoSlips mangled (noteCall f s m) → NoSlips mangled m := NoSlips.of_suffix ⟨[.call f s], rfl⟩
  cases hf : canSlip f with
  | false =>
    obtain ⟨hm₀, hrest⟩ := reads_body hL hreads f hf h hm
    exact ⟨hnoted hm₀, hrest⟩
  | true =>
    cases f with
    | sourceName =>
      obtain ⟨hm₀, hle, hword, hkeep⟩ := reads_sourceName hL hreads hknown h hm hcalled
      exact ⟨hnoted hm₀, hle, hword, fun hb _ => hkeep hb⟩
    | nestedName =>
      obtain ⟨hm₀, hle, hword, hkeep⟩ := reads_nestedName hL hreads hknown h hm hcalled
      exact ⟨hnoted hm₀, hle, hword, fun hb _ => hkeep hb⟩
    | templateParam =>
      obtain ⟨hm₀, hle, hword, hkeep⟩ := reads_templateParam hL hreads hknown h hm hcalled
      exact ⟨hnoted hm₀, hle, hword, fun hb _ => hkeep hb⟩
    | zeroOrMore item =>
      cases item with
      | abiTag =>
        obtain ⟨hm₀, hle, hword⟩ := reads_moreAbiTags hreads hknown h hm hcalled
        exact ⟨hnoted hm₀, hle, hword, fun _ => nofun⟩
      | type => cases hf
      | templateArg => cases hf
    | _ => cases hf

/-! ### The suffix of a mangled name -/

theorem takeWhile_mem_run1 {c : Char → Bool} {chars : List Char} (h : c (chars.headD '\x00') = true)
    (hnul : c '\x00' = false) : chars.takeWhile c ∈ run1 c := by
  refine ⟨fun hnil => ?_, fun x hx => List.mem_takeWhile_imp hx⟩
  cases chars with
  | nil => simp [hnul] at h
  | cons x rest => simp [show c x = true from h] at hnil

/-- A function clone suffix is a sequence of groups, or nothing. -/
theorem isFunctionCloneSuffix_mem : ∀ (fuel : Nat) (str : List Char), isFunctionCloneSuffix fuel str = true →
    str ∈ cloneSuffix∗
  | _, [], _ => Language.nil_mem_kstar _
  | 0, _ :: _, h => by cases h
  | fuel + 1, dot :: rest, h => by
    simp only [isFunctionCloneSuffix, Bool.and_eq_true, beq_iff_eq] at h
    obtain ⟨⟨⟨⟨rfl, halpha⟩, hdot⟩, hdigit⟩, hrest⟩ := h
    have ih := isFunctionCloneSuffix_mem fuel _ hrest
    have hsplit : rest.dropWhile isAlpha = '.' :: (rest.dropWhile isAlpha).tail := by
      cases hd : rest.dropWhile isAlpha with
      | nil => simp [hd] at hdot
      | cons c tail => simpa [hd] using hdot
    have hword : '.' :: rest = ['.'] ++ rest.takeWhile isAlpha ++ ['.'] ++
        (rest.dropWhile isAlpha).tail.takeWhile isDigit ++ (rest.dropWhile isAlpha).tail.dropWhile isDigit := by
      simp only [List.append_assoc, List.cons_append, List.nil_append, List.takeWhile_append_dropWhile]
      rw [← hsplit, List.takeWhile_append_dropWhile]
    rw [hword]
    refine mul_kstar_le_kstar (a := cloneSuffix) (Language.append_mem_mul ?_ ih)
    exact Language.append_mem_mul (Language.append_mem_mul (Language.append_mem_mul rfl
      (takeWhile_mem_run1 halpha (by decide))) rfl) (takeWhile_mem_run1 hdigit (by decide))

/-- What follows the mangled name: nothing or a sequence of function clone suffixes, or a version. -/
def IsSuffix (suffix : List Char) : Prop := suffix ∈ cloneSuffix∗ ∨ suffix.head? = some '@'

theorem rest_of_char_zero {s : State} (h : s.char mangled 0 = '\x00') : mangled.rest s.mangledCur = [] := by
  refine List.drop_eq_nil_of_le (Nat.le_of_not_lt fun hlt => mangled.nulFree ?_)
  rw [← h, State.char, Nat.add_zero, CString.get, List.getD_eq_getElem?_getD, List.getElem?_eq_getElem hlt]
  exact List.getElem_mem hlt

theorem head_rest_of_char {s : State} {c : Char} (h : s.char mangled 0 = c) (hc : c ≠ '\x00') :
    (mangled.rest s.mangledCur).head? = some c := by
  rw [State.char, Nat.add_zero] at h
  have hlt : s.mangledCur < mangled.chars.length := lt_length_of_get mangled (h ▸ hc)
  rw [CString.get, List.getD_eq_getElem?_getD, List.getElem?_eq_getElem hlt] at h
  rw [CString.rest, List.head?_drop, List.getElem?_eq_getElem hlt, ← h]
  rfl

/-- Where `ParseTopLevelMangledName` accepts, what follows the mangled name is a suffix. -/
theorem suffix_of_topLevel {s s' : State} {m m' : Mem}
    (h : Parser.branch (.ensure fun s => s.char mangled 0 != '\x00')
      (.ensure (fun s => isFunctionCloneSuffix mangled.length (mangled.rest s.mangledCur)) |||
        (.ensure (fun s => s.char mangled 0 == '@') &&&
          .act fun s m => maybeAppend (mangled.rest s.mangledCur) s m))
      (.ret true) s m = some (true, s', m')) : IsSuffix (mangled.rest s'.mangledCur) := by
  obtain ⟨v, s₁, m₁, hmore, hsuffix⟩ := branch_eq_some h
  obtain ⟨hend, rfl, rfl⟩ := ensure_eq_some hmore
  cases v with
  | false =>
    cases hsuffix
    rw [rest_of_char_zero (by simpa using hend)]
    exact Or.inl (Language.nil_mem_kstar _)
  | true =>
    rcases either_eq_some hsuffix with ⟨-, hclone⟩ | ⟨s₂, m₂, hclone, hversion⟩
    · obtain ⟨hclone, rfl, -⟩ := ensure_eq_some hclone
      exact Or.inl (isFunctionCloneSuffix_mem _ _ hclone.symm)
    · obtain ⟨-, rfl, -⟩ := ensure_eq_some hclone
      obtain ⟨s₃, m₃, hat, happend⟩ := both_eq_true hversion
      obtain ⟨htoken, rfl, rfl⟩ := ensure_eq_some hat
      have hcur : s'.mangledCur = s₃.mangledCur := by
        have hframe := maybeAppend_outputOnly (mangled.rest s₃.mangledCur) s₃ m₃
        rw [(act_eq_some happend).2] at hframe
        exact hframe.mangledCur
      rw [hcur]
      exact Or.inr (head_rest_of_char (beq_iff_eq.mp htoken.symm) (by decide))

/-- The demangler accepts only its grammar: a string that it accepts in a run without slips is a mangled name
    and a suffix. -/
theorem accepted_mem_grammar (mangled : CString) (out : Option (Nat → Char)) (outSize : Nat) (s' : State) (m' : Mem)
    (h : parse mangled .topLevelMangledName (initState out outSize) (initMem out) = some (true, s', m'))
    (hslips : NoSlips mangled m') :
    ∃ w suffix, mangled.chars = w ++ suffix ∧ Derives .mangledName w ∧ IsSuffix suffix := by
  have hword : ∀ L : Func → Language Char, (∀ f, bnf L f ≤ L f) →
      mangled.chars.extract 0 s'.mangledCur ∈ L .mangledName := fun L hL =>
    (reads_parse hL .topLevelMangledName h hslips).2.2.1 rfl
  refine ⟨mangled.chars.extract 0 s'.mangledCur, mangled.rest s'.mangledCur, ?_, hword, ?_⟩
  · rw [List.extract_eq_take_drop, Nat.sub_zero, List.drop_zero]
    exact (List.take_append_drop s'.mangledCur mangled.chars).symm
  · rw [parse_eq] at h
    obtain ⟨s₁, m₁, -, hsuffix⟩ := both_eq_true h
    exact suffix_of_topLevel hsuffix

end

/-- The condition on a run, as a computation over its record. -/
theorem noSlips_of_all {mangled : CString} {m : Mem}
    (h : m.trace.all (fun | .call f s => !slips mangled f s | _ => true) = true) : NoSlips mangled m :=
  fun f s hmem => by simpa using List.all_eq_true.mp h _ hmem

/-- `_Z1fv`, a function `f` without parameters. -/
theorem accepted_mem_grammar_f :
    ∃ w suffix, "_Z1fv".toList = w ++ suffix ∧ Derives .mangledName w ∧ IsSuffix suffix := by
  have haccept : (parseTopLevel ⟨"_Z1fv".toList, by decide⟩ (some fun _ => '\x00') 9).1 = true := by decide +kernel
  refine accepted_mem_grammar ⟨"_Z1fv".toList, by decide⟩ _ 9 _ _ (parse_of_parseTopLevel haccept) (noSlips_of_all ?_)
  decide +kernel

/-! ### A name of length zero

`_Z0` is accepted, although the grammar does not derive it. -/

def zeroName : CString := ⟨"_Z0".toList, by decide⟩

/-- The words other than the empty one and the number zero. -/
def nonZero : Language Char := {w | w ≠ [] ∧ w ≠ ['0']}

theorem nonZero_mul {X Y : Language Char} (hX : X ≤ nonZero) : X * Y ≤ nonZero := by
  rintro w ⟨x, hx, y, -, rfl⟩
  obtain ⟨hnil, hzero⟩ := hX hx
  refine ⟨fun h => hnil (List.append_eq_nil_iff.mp h).1, fun h => ?_⟩
  rcases List.append_eq_singleton_iff.mp h with ⟨h, -⟩ | ⟨h, -⟩
  · exact hnil h
  · exact hzero h

theorem chr_le_nonZero {c : Char} (hc : c ≠ '0') : chr c ≤ nonZero := by
  rintro w rfl
  exact ⟨nofun, fun h => hc (List.cons.inj h).1⟩

theorem two_le_nonZero (first second : Char) : two first second ≤ nonZero := by
  rintro w rfl
  exact ⟨nofun, fun h => nomatch (List.cons.inj h).2⟩

/-- A solution of the equations in which no mangled name is `_Z0`. -/
def withoutZero : Func → Language Char
  | .mangledName => {w | w ≠ zeroName.chars}
  | .encoding | .name | .unscopedName | .unscopedTemplateName | .nestedName | .unqualifiedName | .sourceName
  | .localSourceName | .operatorName | .specialName | .ctorDtorName | .localName | .substitution => nonZero
  | _ => ⊤

theorem bnf_withoutZero (f : Func) : bnf withoutZero f ≤ withoutZero f := by
  cases f with
  | mangledName =>
    rintro w ⟨x, rfl, y, hy, rfl⟩ h
    exact hy.2 (List.append_cancel_left (h : ['_', 'Z'] ++ y = ['_', 'Z'] ++ ['0']))
  | encoding => exact add_le (add_le (nonZero_mul le_rfl) le_rfl) le_rfl
  | name => exact add_le (add_le (add_le le_rfl le_rfl) (nonZero_mul le_rfl)) le_rfl
  | unscopedName => exact add_le le_rfl (nonZero_mul (two_le_nonZero _ _))
  | unscopedTemplateName => exact add_le le_rfl le_rfl
  | nestedName => exact nonZero_mul (nonZero_mul (nonZero_mul (chr_le_nonZero (by decide))))
  | unqualifiedName => exact add_le (add_le (add_le le_rfl le_rfl) (nonZero_mul le_rfl)) (nonZero_mul le_rfl)
  | sourceName =>
    rintro w ⟨n, hn, hw⟩
    refine nonZero_mul (X := digitsOf n) (fun d hd => ⟨hd.1.1, ?_⟩) hw
    rintro rfl
    exact absurd hd.2 (by rw [show digitsValue 0 ['0'] = 0 from rfl]; omega)
  | localSourceName => exact nonZero_mul (nonZero_mul (chr_le_nonZero (by decide)))
  | operatorName =>
    refine add_le (add_le (nonZero_mul (two_le_nonZero _ _)) (nonZero_mul (nonZero_mul (chr_le_nonZero (by decide))))) ?_
    rintro w ⟨p, -, rfl⟩
    exact ⟨nofun, fun h => nomatch (List.cons.inj h).2⟩
  | specialName =>
    have hT : chr 'T' ≤ nonZero := chr_le_nonZero (by decide)
    exact add_le (add_le (add_le (add_le (add_le (add_le (add_le (add_le
      (nonZero_mul (nonZero_mul hT)) (nonZero_mul (nonZero_mul (nonZero_mul (two_le_nonZero _ _)))))
      (nonZero_mul (two_le_nonZero _ _))) (nonZero_mul (nonZero_mul hT)))
      (nonZero_mul (nonZero_mul (nonZero_mul (nonZero_mul (two_le_nonZero _ _))))))
      (nonZero_mul (nonZero_mul hT))) (nonZero_mul (two_le_nonZero _ _))) (nonZero_mul (two_le_nonZero _ _)))
      (nonZero_mul (nonZero_mul (nonZero_mul hT)))
  | ctorDtorName =>
    exact add_le (nonZero_mul (chr_le_nonZero (by decide))) (nonZero_mul (chr_le_nonZero (by decide)))
  | localName =>
    have hZ : chr 'Z' ≤ nonZero := chr_le_nonZero (by decide)
    exact add_le (nonZero_mul (nonZero_mul (nonZero_mul (nonZero_mul hZ))))
      (nonZero_mul (nonZero_mul (nonZero_mul hZ)))
  | substitution =>
    have hS : chr 'S' ≤ nonZero := chr_le_nonZero (by decide)
    exact add_le (add_le (two_le_nonZero _ _) (nonZero_mul (nonZero_mul hS))) (nonZero_mul hS)
  | _ => exact le_top

theorem dot_mem_of_cloneSuffixes {w : List Char} (h : w ∈ cloneSuffix∗) : w = [] ∨ '.' ∈ w := by
  obtain ⟨groups, rfl, hgroups⟩ := h
  cases groups with
  | nil => exact Or.inl rfl
  | cons group rest =>
    obtain ⟨_, ⟨_, ⟨_, rfl, _, -, rfl⟩, _, -, rfl⟩, _, -, rfl⟩ := hgroups group (List.mem_cons_self ..)
    right
    simp

theorem suffix_zeroName {w suffix : List Char} (h : zeroName.chars = w ++ suffix) (hsuffix : IsSuffix suffix) :
    suffix = [] := by
  have hmem : ∀ c ∈ suffix, c ∈ zeroName.chars := fun c hc => h ▸ List.mem_append_right w hc
  rcases hsuffix with hclone | hversion
  · rcases dot_mem_of_cloneSuffixes hclone with hnil | hdot
    · exact hnil
    · exact absurd (hmem _ hdot) (by decide)
  · exact absurd (hmem _ (List.mem_of_head? hversion)) (by decide)

/-- The grammar does not derive every mangled name that is accepted. -/
theorem not_accepted_mem_grammar : ¬ ∀ (mangled : CString) (out : Option (Nat → Char)) (outSize : Nat) (s' : State)
    (m' : Mem), parse mangled .topLevelMangledName (initState out outSize) (initMem out) = some (true, s', m') →
      ∃ w suffix, mangled.chars = w ++ suffix ∧ Derives .mangledName w ∧ IsSuffix suffix := by
  intro h
  have haccept : (parseTopLevel zeroName (some fun _ => '\x00') 1).1 = true := by decide +kernel
  obtain ⟨w, suffix, hsplit, hname, hsuffix⟩ := h _ _ _ _ _ (parse_of_parseTopLevel haccept)
  rw [suffix_zeroName hsplit hsuffix, List.append_nil] at hsplit
  exact hname withoutZero bnf_withoutZero hsplit.symm

end Glog.Demangle
