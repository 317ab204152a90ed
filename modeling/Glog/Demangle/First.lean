import Glog.Demangle.Failure

/-! # The characters that a parse function can start with

At any other character a function fails at once: it neither moves the cursor nor touches the output. -/

namespace Glog.Demangle
open Backtrack Backtrack.Parser

def startsUnqualified (c : Char) : Bool := isLower c || isDigit c || c == 'C' || c == 'D' || c == 'L'

def startsName (c : Char) : Bool := startsUnqualified c || c == 'N' || c == 'Z' || c == 'S'

def startsType (c : Char) : Bool := startsName c || "VKOPRGUFAMT".toList.contains c

/-- The characters at which a function does more than fail; `true` for those that are not asked about. -/
def starts (c : Char) : Func → Bool
  | .mangledName | .topLevelMangledName => c == '_'
  | .encoding => startsName c || c == 'T' || c == 'G'
  | .name | .unscopedName | .unscopedTemplateName | .classEnumType => startsName c
  | .nestedName => c == 'N'
  | .unqualifiedName => startsUnqualified c
  | .sourceName | .number | .nvOffset | .vOffset => isDigit c || c == 'n'
  | .localSourceName | .exprPrimary => c == 'L'
  | .abiTags | .abiTag | .oneOrMore .abiTag => c == 'B'
  | .operatorName | .builtinType => isLower c
  | .specialName => c == 'T' || c == 'G'
  | .callOffset => c == 'h' || c == 'v'
  | .ctorDtorName => c == 'C' || c == 'D'
  | .type | .bareFunctionType | .oneOrMore .type => startsType c
  | .cvQualifiers => c == 'r' || c == 'V' || c == 'K'
  | .functionType => c == 'F'
  | .arrayType => c == 'A'
  | .pointerToMemberType => c == 'M'
  | .templateParam => c == 'T'
  | .templateTemplateParam => c == 'T' || c == 'S'
  | .substitution => c == 'S'
  | .templateArgs => c == 'I'
  | .expression => isLower c || c == 'T' || c == 'L'
  | .localName => c == 'Z'
  | .discriminator => c == '_'
  | .namePrefix | .namePrefixLoop _ | .identifier _ | .floatNumber | .seqId | .templateArg
  | .oneOrMore .templateArg | .zeroOrMore _ => true

/-- At the character `c` the parser fails, with the cursor and the output as they were. -/
def Silent (mangled : CString) (c : Char) (p : P) : Prop := ∀ ⦃s m b s' m'⦄, s.char mangled 0 = c →
  p s m = some (b, s', m') → b = false ∧ s'.mangledCur = s.mangledCur ∧ m'.out = m.out

/-- The parser neither moves the cursor nor touches the output. -/
def Idle (p : P) : Prop := ∀ ⦃s m b s' m'⦄, p s m = some (b, s', m') → s'.mangledCur = s.mangledCur ∧ m'.out = m.out

section
variable {mangled : CString} {c : Char} {p q : P}

/-! ### Rules -/

theorem Silent.both (hp : Silent mangled c p) : Silent mangled c (p &&& q) := fun s m b s' m' hs h => by
  obtain ⟨v, s₁, m₁, h₁, h₂⟩ := branch_eq_some h
  obtain ⟨rfl, hcur, hout⟩ := hp hs h₁
  cases h₂
  exact ⟨rfl, hcur, hout⟩

theorem Silent.either (hp : Silent mangled c p) (hq : Silent mangled c q) : Silent mangled c (p ||| q) :=
  fun s m b s' m' hs h => by
    obtain ⟨v, s₁, m₁, h₁, h₂⟩ := branch_eq_some h
    obtain ⟨rfl, hcur, hout⟩ := hp hs h₁
    have hs₁ : s₁.char mangled 0 = c := by
      rw [← hs, State.char, hcur]
      rfl
    obtain ⟨rfl, hcur', hout'⟩ := hq hs₁ h₂
    exact ⟨rfl, hcur'.trans hcur, hout'.trans hout⟩

theorem Silent.retry {p : State → P} (hp : ∀ s, Silent mangled c (p s)) : Silent mangled c (.retry p) :=
  fun s m b s' m' hs h => by
    obtain ⟨s₁, h₁, rfl⟩ := retry_eq_some h
    obtain ⟨rfl, -, hout⟩ := hp s hs h₁
    exact ⟨rfl, rfl, hout⟩

theorem Silent.after (hp : Idle p) (hq : Silent mangled c q) : Silent mangled c (p &&& q) := fun s m b s' m' hs h => by
  obtain ⟨v, s₁, m₁, h₁, h₂⟩ := branch_eq_some h
  obtain ⟨hcur, hout⟩ := hp h₁
  cases v
  · cases h₂
    exact ⟨rfl, hcur, hout⟩
  · have hs₁ : s₁.char mangled 0 = c := by
      rw [← hs, State.char, hcur]
      rfl
    obtain ⟨rfl, hcur', hout'⟩ := hq hs₁ h₂
    exact ⟨rfl, hcur'.trans hcur, hout'.trans hout⟩

theorem idle_set {f : State → State} (hf : ∀ s, (f s).mangledCur = s.mangledCur) : Idle (.act fun s m => (f s, m)) :=
  fun s m b s' m' h => by
    obtain ⟨-, heq⟩ := act_eq_some h
    cases heq
    exact ⟨hf s, rfl⟩

theorem idle_ensure {t : State → Bool} : Idle (.ensure t) := fun s m b s' m' h => by
  obtain ⟨-, rfl, rfl⟩ := ensure_eq_some h
  exact ⟨rfl, rfl⟩

theorem Idle.both (hp : Idle p) (hq : Idle q) : Idle (p &&& q) := fun s m b s' m' h => by
  obtain ⟨v, s₁, m₁, h₁, h₂⟩ := branch_eq_some h
  obtain ⟨hcur, hout⟩ := hp h₁
  cases v
  · cases h₂
    exact ⟨hcur, hout⟩
  · obtain ⟨hcur', hout'⟩ := hq h₂
    exact ⟨hcur'.trans hcur, hout'.trans hout⟩

theorem silent_ensure {t : State → Bool} (h : ∀ s, s.char mangled 0 = c → t s = false) : Silent mangled c (.ensure t) :=
  fun s m b s' m' hs hrun => by
    obtain ⟨rfl, rfl, rfl⟩ := ensure_eq_some hrun
    exact ⟨h _ hs, rfl, rfl⟩

theorem silent_lookup {α : Type} {find : State → Option α} {f : α → State → Mem → State × Mem}
    (h : ∀ s, s.char mangled 0 = c → find s = none) : Silent mangled c (.lookup find f) := fun s m b s' m' hs hrun => by
  rcases lookup_eq_some hrun with ⟨x, hx, -, -⟩ | ⟨-, rfl, rfl, rfl⟩
  · rw [h s hs] at hx
    cases hx
  · exact ⟨rfl, rfl, rfl⟩

theorem silent_parseIf {t : Char → Bool} (h : t c = false) : Silent mangled c (parseIf mangled t) :=
  silent_lookup fun s hs => by simp [hs, h]

theorem silent_token {token : Char} (h : c ≠ token) : Silent mangled c (parseOneCharToken mangled token) :=
  silent_parseIf (by simpa using h)

theorem silent_twoCharToken {first second : Char} (h : c ≠ first) :
    Silent mangled c (parseTwoCharToken mangled first second) :=
  silent_lookup fun s hs => by simp [hs, h]

theorem silent_charClass {charClass : List Char} (h : c ∉ charClass) :
    Silent mangled c (parseCharClass mangled charClass) :=
  silent_parseIf (by simpa using h)

theorem parseNumber_of_not_digit {s : State} (hs : s.char mangled 0 = c) (hd : isDigit c = false) (hn : c ≠ 'n') :
    parseNumber mangled s = (none, s) := by
  have hstart : numeralStart mangled s = s.mangledCur := numeralStart_of_ne (by rw [hs]; exact hn)
  have hnil : numeral mangled s = [] := by
    have hget : mangled.chars.getD s.mangledCur '\x00' = c := hs
    rw [numeral, hstart, CString.rest]
    cases hrest : mangled.chars.drop s.mangledCur with
    | nil => rfl
    | cons x rest =>
      have hx : mangled.chars.getD s.mangledCur '\x00' = x := by
        rw [List.getD_eq_getElem?_getD, ← Nat.add_zero s.mangledCur, ← List.getElem?_drop, hrest]
        rfl
      refine List.takeWhile_cons_of_neg ?_
      rw [← hx, hget, hd]
      exact Bool.false_ne_true
  rw [parseNumber_of_not_isNumber fun h => h.1 hnil, hstart]

theorem silent_number {k : Int → P} (hd : isDigit c = false) (hn : c ≠ 'n') :
    Silent mangled c (.reading (parseNumber mangled) k) := fun s m b s' m' hs h => by
  have hread := parseNumber_of_not_digit hs hd hn
  rcases reading_eq_some h with ⟨x, hx, -⟩ | ⟨-, rfl, rfl, rfl⟩
  · rw [hread] at hx
    cases hx
  · rw [hread]
    exact ⟨rfl, rfl, rfl⟩

theorem silent_cvQualifiers (h : c ≠ 'r' ∧ c ≠ 'V' ∧ c ≠ 'K') : Silent mangled c (parseCVQualifiers mangled) :=
  silent_lookup fun s hs => by
    have hsame : cvQualifiers mangled s = s := by
      simp [cvQualifiers, hs, h]
    simp [hsame]

theorem silent_table {α : Type} {table : List α} {key : α → Char} {f : α → State → Mem → State × Mem}
    (h : ∀ x ∈ table, key x ≠ c) :
    Silent mangled c (.lookup (fun s => table.find? fun x => s.char mangled 0 == key x) f) :=
  silent_lookup fun s hs => by
    rw [List.find?_eq_none]
    intro x hx
    rw [hs, beq_iff_eq]
    exact fun heq => h x hx heq.symm

/-! ### The parse functions -/

section
variable {call : Func → P}

theorem silent_body (hcall : ∀ g, starts c g = false → Silent mangled c (call g)) (f : Func)
    (h : starts c f = false) : Silent mangled c (body mangled call f) := by
  cases f with
  | mangledName => exact .both (silent_twoCharToken (by simpa [starts] using h))
  | encoding =>
    simp only [starts, Bool.or_eq_false_iff] at h
    exact .either (.either (.retry fun _ => .both (hcall .name h.1.1)) (hcall .name h.1.1))
      (hcall .specialName (by simp [starts, h]))
  | name =>
    have hname : startsUnqualified c = false ∧ c ≠ 'N' ∧ c ≠ 'Z' ∧ c ≠ 'S' := by
      simpa [starts, startsName, and_assoc] using h
    exact .either
      (.either (.either (hcall .nestedName (by simp [starts, hname])) (hcall .localName (by simp [starts, hname])))
      (.retry fun _ => .both (hcall .unscopedTemplateName h))) (hcall .unscopedName h)
  | unscopedName =>
    have hname : startsUnqualified c = false ∧ c ≠ 'N' ∧ c ≠ 'Z' ∧ c ≠ 'S' := by
      simpa [starts, startsName, and_assoc] using h
    exact .either (hcall .unqualifiedName hname.1) (.retry fun _ => .both (.both (silent_twoCharToken hname.2.2.2)))
  | unscopedTemplateName =>
    have hname : startsUnqualified c = false ∧ c ≠ 'N' ∧ c ≠ 'Z' ∧ c ≠ 'S' := by
      simpa [starts, startsName, and_assoc] using h
    exact .either (hcall .unscopedName h) (hcall .substitution (by simp [starts, hname]))
  | nestedName =>
    exact .retry fun _ => .both (.both (.both (.both (.both (silent_token (by simpa [starts] using h))))))
  | unqualifiedName =>
    have hname : isLower c = false ∧ isDigit c = false ∧ c ≠ 'C' ∧ c ≠ 'D' ∧ c ≠ 'L' := by
      simpa [starts, startsUnqualified, and_assoc] using h
    have hn : c ≠ 'n' := fun hc => by rw [hc] at hname; exact absurd hname.1 (by decide)
    exact .either (.either (.either (hcall .operatorName hname.1) (hcall .ctorDtorName (by simp [starts, hname])))
      (.both (hcall .sourceName (by simp [starts, hname, hn])))) (.both (hcall .localSourceName (by simp [starts, hname])))
  | sourceName =>
    have hnumber : isDigit c = false ∧ c ≠ 'n' := by simpa [starts] using h
    exact .retry fun _ => silent_number hnumber.1 hnumber.2
  | localSourceName => exact .retry fun _ => .both (.both (silent_token (by simpa [starts] using h)))
  | number =>
    have hnumber : isDigit c = false ∧ c ≠ 'n' := by simpa [starts] using h
    exact silent_number hnumber.1 hnumber.2
  | abiTags => exact .retry fun _ => .both (.after (idle_set fun _ => rfl) (hcall (.oneOrMore .abiTag) h))
  | abiTag => exact .both (silent_token (by simpa [starts] using h))
  | operatorName =>
    have hne : ∀ x, isLower x = true → c ≠ x := fun x hx hc => by
      rw [starts, hc, hx] at h
      cases h
    exact .after idle_ensure (.either (.either
      (.retry fun _ => .both (.both (.both (.both (silent_twoCharToken (hne 'c' rfl))))))
      (.retry fun _ => .both (.both (silent_token (hne 'v' rfl)))))
      (.both (silent_ensure fun s hs => by rw [hs, (show isLower c = false from h), Bool.false_and])))
  | specialName =>
    have hne : c ≠ 'T' ∧ c ≠ 'G' := by simpa [starts] using h
    exact .either (.either (.either (.either (.either (.either (.either (.either
      (.retry fun _ => .both (.both (silent_token hne.1)))
      (.retry fun _ => .both (.both (.both (silent_twoCharToken hne.1)))))
      (.retry fun _ => .both (silent_twoCharToken hne.2)))
      (.retry fun _ => .both (.both (silent_token hne.1))))
      (.retry fun _ => .both (.both (.both (.both (.both (.both (silent_twoCharToken hne.1))))))))
      (.retry fun _ => .both (.both (silent_token hne.1))))
      (.retry fun _ => .both (silent_twoCharToken hne.2)))
      (.retry fun _ => .both (silent_twoCharToken hne.2)))
      (.retry fun _ => .both (.both (.both (silent_token hne.1))))
  | callOffset =>
    have hne : c ≠ 'h' ∧ c ≠ 'v' := by simpa [starts] using h
    exact .either (.retry fun _ => .both (.both (silent_token hne.1))) (.retry fun _ => .both (.both (silent_token hne.2)))
  | nvOffset => exact hcall .number h
  | vOffset => exact .retry fun _ => .both (.both (hcall .number h))
  | ctorDtorName =>
    have hne : c ≠ 'C' ∧ c ≠ 'D' := by simpa [starts] using h
    exact .either (.retry fun _ => .both (.both (silent_token hne.1))) (.retry fun _ => .both (.both (silent_token hne.2)))
  | type =>
    have hname : startsName c = false ∧ c ∉ "VKOPRGUFAMT".toList := by simpa [starts, startsType] using h
    have hfirst : isLower c = false ∧ isDigit c = false ∧ c ≠ 'C' ∧ c ≠ 'D' ∧ c ≠ 'L' ∧ c ≠ 'N' ∧ c ≠ 'Z' ∧ c ≠ 'S' := by
      simpa [startsName, startsUnqualified, and_assoc] using hname.1
    have hr : c ≠ 'r' := fun hc => by rw [hc] at hfirst; exact absurd hfirst.1 (by decide)
    have hne : ∀ x ∈ "VKOPRGUFAMT".toList, c ≠ x := fun x hx hc => hname.2 (hc ▸ hx)
    exact .either (.either (.either (.either (.either (.either
      (.retry fun _ => .both (hcall .cvQualifiers (by simp [starts, hr, hne 'V' (by decide), hne 'K' (by decide)])))
      (.retry fun _ => .both (silent_charClass (by
        simp [hfirst, hne 'O' (by decide), hne 'P' (by decide), hne 'R' (by decide), hne 'G' (by decide)]))))
      (.retry fun _ => .both (silent_twoCharToken hfirst.2.2.2.1)))
      (.retry fun _ => .both (.both (.both (silent_token hfirst.2.2.2.1)))))
      (.retry fun _ => .both (.both (silent_token (hne 'U' (by decide))))))
      (.retry fun _ => .either (.either (.either (.either (.either (.either (hcall .builtinType hfirst.1)
        (hcall .functionType (by simp [starts, hne 'F' (by decide)]))) (hcall .classEnumType hname.1))
        (hcall .arrayType (by simp [starts, hne 'A' (by decide)])))
        (hcall .pointerToMemberType (by simp [starts, hne 'M' (by decide)])))
        (hcall .substitution (by simp [starts, hfirst])))
        (.both (hcall .templateTemplateParam (by simp [starts, hfirst, hne 'T' (by decide)])))))
      (hcall .templateParam (by simp [starts, hne 'T' (by decide)]))
  | cvQualifiers =>
    have hne : c ≠ 'r' ∧ c ≠ 'V' ∧ c ≠ 'K' := by simpa [starts, and_assoc] using h
    exact silent_cvQualifiers hne
  | builtinType =>
    have hlower : ∀ x ∈ builtinTypeList, isLower x.1 = true := by decide
    have hne : ∀ x, isLower x = true → x ≠ c := fun x hx hc => by
      rw [starts, ← hc, hx] at h
      cases h
    exact .either (silent_table fun x hx => hne x.1 (hlower x hx))
      (.retry fun _ => .both (silent_token (Ne.symm (hne 'u' rfl))))
  | functionType => exact .retry fun _ => .both (.both (.both (silent_token (by simpa [starts] using h))))
  | bareFunctionType => exact .retry fun _ => .both (.both (.after (idle_set fun _ => rfl) (hcall (.oneOrMore .type) h)))
  | classEnumType => exact hcall .name h
  | arrayType =>
    have hne : c ≠ 'A' := by simpa [starts] using h
    exact .either (.retry fun _ => .both (.both (.both (silent_token hne))))
      (.retry fun _ => .both (.both (.both (silent_token hne))))
  | pointerToMemberType => exact .retry fun _ => .both (.both (silent_token (by simpa [starts] using h)))
  | templateParam =>
    have hne : c ≠ 'T' := by simpa [starts] using h
    exact .either (.both (silent_twoCharToken hne)) (.retry fun _ => .both (.both (.both (silent_token hne))))
  | templateTemplateParam =>
    have hne : c ≠ 'T' ∧ c ≠ 'S' := by simpa [starts] using h
    exact .either (hcall .templateParam (by simp [starts, hne])) (hcall .substitution (by simp [starts, hne]))
  | templateArgs =>
    exact .retry fun _ => .both (.both (.both (.both (.after (idle_set fun _ => rfl)
      (silent_token (by simpa [starts] using h))))))
  | expression =>
    have hfirst : isLower c = false ∧ c ≠ 'T' ∧ c ≠ 'L' := by simpa [starts, and_assoc] using h
    have hs : c ≠ 's' := fun hc => by rw [hc] at hfirst; exact absurd hfirst.1 (by decide)
    exact .either
      (.either (hcall .templateParam (by simp [starts, hfirst])) (hcall .exprPrimary (by simp [starts, hfirst])))
      (.after (.both idle_ensure (idle_set fun _ => rfl))
        (.either (.either (.either (.either (.either
          (.retry fun _ => .both (.both (.both (.both (hcall .operatorName hfirst.1)))))
          (.retry fun _ => .both (.both (.both (hcall .operatorName hfirst.1)))))
          (.retry fun _ => .both (.both (hcall .operatorName hfirst.1))))
          (.retry fun _ => .both (silent_twoCharToken hs)))
          (.retry fun _ => .both (.both (.both (.both (silent_twoCharToken hs))))))
          (.retry fun _ => .both (.both (.both (silent_twoCharToken hs))))))
  | exprPrimary =>
    have hne : c ≠ 'L' := by simpa [starts] using h
    exact .either (.either (.either (.retry fun _ => .both (.both (.both (silent_token hne))))
      (.retry fun _ => .both (.both (.both (silent_token hne)))))
      (.retry fun _ => .both (.both (silent_token hne)))) (.retry fun _ => .both (.both (silent_twoCharToken hne)))
  | localName =>
    have hne : c ≠ 'Z' := by simpa [starts] using h
    exact .after (.both idle_ensure (idle_set fun _ => rfl))
      (.either (.retry fun _ => .both (.both (.both (.both (.both (.both (silent_token hne)))))))
        (.retry fun _ => .both (.both (.both (.both (silent_token hne))))))
  | discriminator => exact .retry fun _ => .both (silent_token (by simpa [starts] using h))
  | substitution =>
    have hne : c ≠ 'S' := by simpa [starts] using h
    exact .either (.either (.both (silent_twoCharToken hne)) (.retry fun _ => .both (.both (.both (silent_token hne)))))
      (.retry fun _ => .both (silent_token hne))
  | topLevelMangledName => exact .both (hcall .mangledName h)
  | oneOrMore item =>
    cases item with
    | abiTag => exact .both (hcall .abiTag h)
    | type => exact .both (hcall .type h)
    | templateArg => cases h
  | _ => cases h

end

/-- A parse function fails at once at a character that it cannot start with. -/
theorem silent_parse (f : Func) (h : starts c f = false) : Silent mangled c (parse mangled f) :=
  fun s m b s' m' hs hrun => by
    suffices all : starts c f = false → s.char mangled 0 = c → b = false ∧ s'.mangledCur = s.mangledCur ∧
        m'.out = m.out from
      all h hs
    refine run_induct (P := fun f s m b s' m' => starts c f = false → s.char mangled 0 = c →
      b = false ∧ s'.mangledCur = s.mangledCur ∧ m'.out = m.out) (fun call hcall f s m b s' m' hbody hf hs => ?_) hrun
    have hsilent := silent_body (fun g hg s m b s' m' hs h => hcall g s m b s' m' h hg hs) f hf hs hbody
    exact hsilent

end

end Glog.Demangle
