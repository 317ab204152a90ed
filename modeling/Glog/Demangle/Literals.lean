import Glog.Demangle.Cursor
import Glog.Demangle.Siblings

/-! # Integer literals

`L <type> <number> E` as an argument of a template. The number is not used, but it must fit into `int`; where it does not,
it may still be read as the hexadecimal digits of a float, unless it has a sign. -/

namespace Glog.Demangle
open Backtrack Backtrack.Parser

def sign (negative : Bool) : List Char := if negative then ['n'] else []

/-- `L <type> [n] <digits> E`. -/
def literal (t : Char) (negative : Bool) (d : List Char) : List Char := 'L' :: t :: (sign negative ++ (d ++ ['E']))

/-- A value with a sign that `int` has. -/
def InRange (negative : Bool) (d : List Char) : Prop := negative = true → digitsValue 0 d ≤ intMax

instance (negative : Bool) (d : List Char) : Decidable (InRange negative d) :=
  inferInstanceAs (Decidable (negative = true → digitsValue 0 d ≤ intMax))

section
variable {mangled : CString} {n : Nat} {null b negative : Bool} {c c' : Place} {s : State} {m : Mem} {t : Char}
    {d r : List Char}

theorem literal_append (t : Char) (negative : Bool) (d r : List Char) :
    literal t negative d ++ r = 'L' :: t :: (sign negative ++ (d ++ 'E' :: r)) := by
  simp [literal]

theorem length_literal (t : Char) (negative : Bool) (d : List Char) :
    (literal t negative d).length = (sign negative).length + d.length + 3 := by
  simp [literal]
  omega

theorem rest_append {cur : Nat} {l : List Char} (h : mangled.rest cur = l ++ r) : mangled.rest (cur + l.length) = r := by
  rw [rest_add, h, List.drop_left]

/-! ### Numbers -/

theorem takeWhile_digits (hd : ∀ x ∈ d, isDigit x = true) (r : List Char) : (d ++ 'E' :: r).takeWhile isDigit = d := by
  rw [List.takeWhile_append_of_pos hd, List.takeWhile_cons_of_neg (by decide), List.append_nil]

theorem char_sign (hrest : mangled.rest s.mangledCur = sign negative ++ r) (hn : negative = false → r.headD '\x00' ≠ 'n') :
    (s.char mangled 0 == 'n') = negative := by
  rw [head_eq_rest, hrest]
  cases negative with
  | true => rfl
  | false => exact beq_false_of_ne (hn rfl)

/-- The digits behind a sign. -/
theorem numeral_sign (hrest : mangled.rest s.mangledCur = sign negative ++ r)
    (hn : negative = false → r.headD '\x00' ≠ 'n') :
    numeralStart mangled s = s.mangledCur + (sign negative).length ∧ numeral mangled s = r.takeWhile isDigit := by
  have hstart : numeralStart mangled s = s.mangledCur + (sign negative).length := by
    rw [numeralStart, char_sign hrest hn]
    cases negative <;> rfl
  exact ⟨hstart, by rw [numeral, hstart, rest_append hrest]⟩

/-- Without digits, or with too many of them, the sign is consumed all the same. -/
theorem parseNumber_none (negative : Bool) (hrest : mangled.rest s.mangledCur = sign negative ++ r)
    (hn : negative = false → r.headD '\x00' ≠ 'n')
    (h : ¬ (r.takeWhile isDigit ≠ [] ∧ digitsValue 0 (r.takeWhile isDigit) ≤ intMax)) :
    parseNumber mangled s = (none, s.advance (sign negative).length) := by
  obtain ⟨hstart, hnumeral⟩ := numeral_sign hrest hn
  rw [parseNumber_of_not_isNumber (by rw [IsNumber, hnumeral]; exact h), hstart]
  rfl

theorem head_digits (hne : d ≠ []) (hd : ∀ x ∈ d, isDigit x = true) (r : List Char) : (d ++ r).headD '\x00' ≠ 'n' := by
  cases d with
  | nil => exact absurd rfl hne
  | cons x d =>
    intro h
    have hx := hd x List.mem_cons_self
    rw [show x = 'n' from h] at hx
    exact absurd hx (by decide)

theorem parseNumber_of_le (negative : Bool) (hrest : mangled.rest s.mangledCur = sign negative ++ (d ++ 'E' :: r))
    (hne : d ≠ []) (hd : ∀ x ∈ d, isDigit x = true) (hle : digitsValue 0 d ≤ intMax) : parseNumber mangled s =
      (some (if negative then -(digitsValue 0 d : Int) else digitsValue 0 d),
        (s.advance (sign negative).length).advance d.length) := by
  have hn : negative = false → (d ++ 'E' :: r).headD '\x00' ≠ 'n' := fun _ => head_digits hne hd _
  obtain ⟨hstart, hnumeral⟩ := numeral_sign hrest hn
  rw [takeWhile_digits hd] at hnumeral
  rw [parseNumber_of_isNumber (by rw [IsNumber, hnumeral]; exact ⟨hne, hle⟩), hstart, hnumeral, char_sign hrest hn]
  rfl

theorem parseNumber_of_gt (negative : Bool) (hrest : mangled.rest s.mangledCur = sign negative ++ (d ++ 'E' :: r))
    (hne : d ≠ []) (hd : ∀ x ∈ d, isDigit x = true) (hgt : intMax < digitsValue 0 d) :
    parseNumber mangled s = (none, s.advance (sign negative).length) := by
  refine parseNumber_none negative hrest (fun _ => head_digits hne hd _) ?_
  rw [takeWhile_digits hd]
  exact fun h => Nat.not_le.mpr hgt h.2

theorem moves_number (hrest : mangled.rest c.cur = sign negative ++ (d ++ 'E' :: r)) (hne : d ≠ [])
    (hd : ∀ x ∈ d, isDigit x = true) (hle : digitsValue 0 d ≤ intMax) :
    Moves n null (parse mangled .number) c true { c with cur := c.cur + (sign negative).length + d.length } := by
  have hnumber : ∀ s m, At n null c s m → parseNumber mangled s = _ := fun s m hs =>
    parseNumber_of_le negative (hs.cur ▸ hrest) hne hd hle
  refine moves_call (.reading (x := if negative then -(digitsValue 0 d : Int) else digitsValue 0 d) (fun s m hs => ?_)
    (fun s m hs => ?_) (.ret true))
  · rw [hnumber s m hs]
  · rw [hnumber s m hs]
    exact (hs.advance _).advance _

/-- The sign is consumed. -/
theorem moves_number_false (hrest : mangled.rest c.cur = sign negative ++ (d ++ 'E' :: r)) (hne : d ≠ [])
    (hd : ∀ x ∈ d, isDigit x = true) (hgt : intMax < digitsValue 0 d) :
    Moves n null (parse mangled .number) c false { c with cur := c.cur + (sign negative).length } := by
  refine moves_call fun s m hs => ⟨s.advance (sign negative).length, m, ?_, hs.advance _⟩
  have hnumber := parseNumber_of_gt (s := s) negative (hs.cur ▸ hrest) hne hd hgt
  simp only [body, parseNumberToken, Parser.reading, hnumber]

theorem moves_floatNumber (hrest : mangled.rest c.cur = d ++ 'E' :: r) (hne : d ≠ []) (hd : ∀ x ∈ d, isDigit x = true) :
    Moves n null (parse mangled .floatNumber) c true { c with cur := c.cur + d.length } := by
  have hrun : (d ++ 'E' :: r).takeWhile (fun x => isDigit x || ('a' ≤ x && x ≤ 'f')) = d := by
    rw [List.takeWhile_append_of_pos fun x hx => by rw [hd x hx, Bool.true_or], List.takeWhile_cons_of_neg (by decide),
      List.append_nil]
  refine moves_call (.lookup (x := d.length) (fun s m hs => ?_) fun s m hs => hs.advance _)
  rw [hs.cur, hrest, hrun]
  exact if_neg fun h => hne (List.length_eq_zero_iff.mp h)

theorem moves_floatNumber_false (hrest : mangled.rest c.cur = 'n' :: r) :
    Moves n null (parse mangled .floatNumber) c false c := by
  refine moves_call (.lookup_none fun s m hs => ?_)
  rw [hs.cur, hrest, List.takeWhile_cons_of_neg (by decide)]
  rfl

/-! ### `ParseExprPrimary` -/

/-- The cursor behind a literal. -/
def Place.past (c : Place) (t : Char) (negative : Bool) (d : List Char) : Place :=
  { c with cur := c.cur + (literal t negative d).length }

theorem past_eq (c : Place) (t : Char) (negative : Bool) (d : List Char) :
    c.past t negative d = { c with cur := c.cur + 1 + 1 + (sign negative).length + d.length + 1 } := by
  rw [Place.past, length_literal]
  congr 1
  omega

theorem moves_exprPrimary (ht : t ∈ builtinTypeList.map Prod.fst) (hrest : mangled.rest c.cur = literal t negative d ++ r)
    (hne : d ≠ []) (hd : ∀ x ∈ d, isDigit x = true) (hrange : InRange negative d) :
    Moves n null (parse mangled .exprPrimary) c true (c.past t negative d) := by
  rw [literal_append] at hrest
  have htype := rest_succ hrest
  have hsign := rest_succ htype
  have hdigits := rest_append hsign
  have hend := rest_append hdigits
  have hopen : Moves n null (parseOneCharToken mangled 'L') c true { c with cur := c.cur + 1 } := moves_token hrest
  have hletter : Moves n null (parse mangled .type) { c with cur := c.cur + 1 } true { c with cur := c.cur + 1 + 1 } :=
    moves_type_letter ht htype
  have hclose : Moves n null (parseOneCharToken mangled 'E')
      { c with cur := c.cur + 1 + 1 + (sign negative).length + d.length } true
      { c with cur := c.cur + 1 + 1 + (sign negative).length + d.length + 1 } := moves_token hend
  rw [past_eq]
  by_cases hle : digitsValue 0 d ≤ intMax
  · have hnumber : Moves n null (parse mangled .number) { c with cur := c.cur + 1 + 1 } true
        { c with cur := c.cur + 1 + 1 + (sign negative).length + d.length } := moves_number hsign hne hd hle
    exact moves_call (.either_true (.either_true (.either_true (.retry fun _ _ _ =>
      .both (.both (.both hopen hletter) hnumber) hclose))))
  · cases negative with
    | true => exact absurd (hrange rfl) hle
    | false =>
      have hnumber : Moves n null (parse mangled .number) { c with cur := c.cur + 1 + 1 } false
          { c with cur := c.cur + 1 + 1 + (sign false).length } := moves_number_false hsign hne hd (Nat.not_le.mp hle)
      have hfloat : Moves n null (parse mangled .floatNumber) { c with cur := c.cur + 1 + 1 } true
          { c with cur := c.cur + 1 + 1 + (sign false).length + d.length } := moves_floatNumber hdigits hne hd
      exact moves_call (.either_true (.either_true (.either
        (moves_retry_false fun _ => .both_false (.both (.both hopen hletter) hnumber))
        (.retry fun _ _ _ => .both (.both (.both hopen hletter) hfloat) hclose))))

theorem moves_exprPrimary_false (ht : t ∈ builtinTypeList.map Prod.fst)
    (hrest : mangled.rest c.cur = literal t negative d ++ r)
    (hne : d ≠ []) (hd : ∀ x ∈ d, isDigit x = true) (hrange : ¬ InRange negative d) :
    Moves n null (parse mangled .exprPrimary) c false c := by
  have hnegative : negative = true := Classical.byContradiction fun h => hrange fun hnegative => absurd hnegative h
  have hgt : intMax < digitsValue 0 d := Nat.not_le.mp fun hle => hrange fun _ => hle
  subst hnegative
  rw [literal_append] at hrest
  have htype := rest_succ hrest
  have hsign := rest_succ htype
  have hletters : ∀ x ∈ builtinTypeList.map Prod.fst, x ≠ 'Z' ∧ starts x .mangledName = false := by decide
  have hopen : Moves n null (parseOneCharToken mangled 'L') c true { c with cur := c.cur + 1 } := moves_token hrest
  have hletter : Moves n null (parse mangled .type) { c with cur := c.cur + 1 } true { c with cur := c.cur + 1 + 1 } :=
    moves_type_letter ht htype
  have hnumber : Moves n null (parse mangled .number) { c with cur := c.cur + 1 + 1 } false
      { c with cur := c.cur + 1 + 1 + (sign true).length } := moves_number_false hsign hne hd hgt
  have hfloat :
      Moves n null (parse mangled .floatNumber) { c with cur := c.cur + 1 + 1 } false { c with cur := c.cur + 1 + 1 } :=
    moves_floatNumber_false hsign
  have hmangled : Moves n null (parse mangled .mangledName) { c with cur := c.cur + 1 } false { c with cur := c.cur + 1 } :=
    moves_silent .mangledName (by rw [htype]; exact (hletters t ht).2) nofun
  have hencoding : Moves n null (parseTwoCharToken mangled 'L' 'Z') c false c :=
    moves_twoCharToken_false (Or.inr (by rw [hrest]; exact (hletters t ht).1))
  exact moves_call (.either (.either (.either
    (moves_retry_false fun _ => .both_false (.both (.both hopen hletter) hnumber))
    (moves_retry_false fun _ => .both_false (.both (.both hopen hletter) hfloat)))
    (moves_retry_false fun _ => .both_false (.both hopen hmangled)))
    (moves_retry_false fun _ => .both_false (.both_false hencoding)))

/-! ### A literal taken for a type

`L` also starts a local source name. Its length is a number with a sign, so the type `n` may be its sign, and the length
zero names nothing. -/

/-- `Ln0E`, with any number of zeros. -/
def NamesNothing (t : Char) (negative : Bool) (d : List Char) : Prop := t = 'n' ∧ negative = false ∧ digitsValue 0 d = 0

instance (t : Char) (negative : Bool) (d : List Char) : Decidable (NamesNothing t negative d) :=
  inferInstanceAs (Decidable (_ ∧ _))

theorem moves_identifier_negative {length : Int} (h : length < 0) :
    Moves n null (parse mangled (.identifier length)) c false c := by
  refine moves_call fun s m hs => ?_
  change ∃ s' m', parseIdentifier mangled length s m = some (false, s', m') ∧ _
  unfold parseIdentifier
  split
  · exact ⟨s, m, rfl, hs⟩
  · exact ⟨_, _, if_pos (Or.inl h), hs.of_outputOnly (appendIdentifier_outputOnly mangled length s m)⟩

theorem moves_identifier_zero : Moves n null (parse mangled (.identifier 0)) c true c := by
  refine moves_call fun s m hs => ?_
  change ∃ s' m', parseIdentifier mangled 0 s m = some (true, s', m') ∧ _
  unfold parseIdentifier
  rw [if_neg (by simp [atLeastNumCharsRemaining])]
  exact ⟨_, _, if_neg (by simp), (hs.of_outputOnly (appendIdentifier_outputOnly mangled 0 s m)).advance 0⟩

theorem moves_sourceName_none {k : Nat}
    (h : ∀ s : State, s.mangledCur = c.cur → parseNumber mangled s = (none, s.advance k)) :
    Moves n null (parse mangled .sourceName) c false c :=
  moves_call (moves_retry_false fun _ s m hs => ⟨s.advance k, m, by simp only [Parser.reading, h s hs.cur], hs.advance k⟩)

/-- Behind the `L` of a literal there is no source name. -/
theorem moves_sourceName_literal (ht : t ∈ builtinTypeList.map Prod.fst)
    (hrest : mangled.rest c.cur = t :: (sign negative ++ (d ++ 'E' :: r))) (hne : d ≠ []) (hd : ∀ x ∈ d, isDigit x = true)
    (hnames : ¬ NamesNothing t negative d) : Moves n null (parse mangled .sourceName) c false c := by
  by_cases hn : t = 'n'
  · subst hn
    cases negative with
    | true =>
      exact moves_sourceName_none fun s hs => parseNumber_none true (hs ▸ hrest) nofun fun h => h.1 rfl
    | false =>
      by_cases hle : digitsValue 0 d ≤ intMax
      · have hpos : digitsValue 0 d ≠ 0 := fun h => hnames ⟨rfl, rfl, h⟩
        have hnumber : ∀ s m, At n null c s m → parseNumber mangled s = _ := fun s m hs =>
          parseNumber_of_le true (hs.cur ▸ hrest) hne hd hle
        have hidentifier : Moves n null (parse mangled (.identifier (-(digitsValue 0 d : Int))))
            { c with cur := c.cur + 1 + d.length } false { c with cur := c.cur + 1 + d.length } :=
          moves_identifier_negative (by omega)
        refine moves_call (moves_retry_false fun _ => .reading (fun s m hs => ?_) (fun s m hs => ?_) hidentifier)
        · rw [hnumber s m hs]
          rfl
        · rw [hnumber s m hs]
          exact (hs.advance _).advance _
      · exact moves_sourceName_none fun s hs => parseNumber_of_gt true (hs ▸ hrest) hne hd (Nat.not_le.mp hle)
  · have hletters : ∀ x ∈ builtinTypeList.map Prod.fst, x ≠ 'n' → starts x .sourceName = false := by decide
    exact moves_silent .sourceName (by rw [hrest]; exact hletters t ht hn) nofun

/-- What is neither a source name nor a local one is no type. -/
theorem moves_type_false (hrest : mangled.rest c.cur = 'L' :: r)
    (hsource : Moves n null (parse mangled .sourceName) { c with cur := c.cur + 1 } false { c with cur := c.cur + 1 }) :
    Moves n null (parse mangled .type) c false c := by
  have hL : Rejects (At n null) mangled 'L' c := moves_rejects_cons hrest
  have hlocal : Moves n null (parse mangled .localSourceName) c false c :=
    moves_call (moves_retry_false fun _ => .both_false (.both (moves_token hrest) hsource))
  have hunqualified : Moves n null (parse mangled .unqualifiedName) c false c :=
    moves_call (.either (.either (.either (hL.silent .operatorName rfl nofun) (hL.silent .ctorDtorName rfl nofun))
      (.both_false (hL.silent .sourceName rfl nofun))) (.both_false hlocal))
  have hunscoped : Moves n null (parse mangled .unscopedName) c false c :=
    moves_call (.either hunqualified (moves_retry_false fun _ => .both_false (.both_false (hL.twoCharToken (by decide)))))
  have htemplateName : Moves n null (parse mangled .unscopedTemplateName) c false c :=
    moves_call (.either hunscoped (hL.silent .substitution rfl nofun))
  have hname : Moves n null (parse mangled .name) c false c :=
    moves_call (.either (.either (.either (hL.silent .nestedName rfl nofun) (hL.silent .localName rfl nofun))
      (moves_retry_false fun _ => .both_false htemplateName)) hunscoped)
  exact hL.typeFalse (by decide) (by decide) hname

/-- The name of length zero is a type, without the `E`. -/
theorem moves_type_nothing (hrest : mangled.rest c.cur = literal 'n' false d ++ r) (hne : d ≠ [])
    (hd : ∀ x ∈ d, isDigit x = true) (hzero : digitsValue 0 d = 0) :
    Moves n null (parse mangled .type) c true { c with cur := c.cur + 1 + (1 + d.length) } := by
  rw [literal_append] at hrest
  have hsign := rest_succ hrest
  have hend : mangled.rest (c.cur + 1 + (1 + d.length)) = 'E' :: r := by
    rw [← Nat.add_assoc]
    exact rest_append (rest_succ hsign)
  have hL : Rejects (At n null) mangled 'L' c := moves_rejects_cons hrest
  have hE : Rejects (At n null) mangled 'E' { c with cur := c.cur + 1 + (1 + d.length) } := moves_rejects_cons hend
  have hnumber : ∀ s m, At n null { c with cur := c.cur + 1 } s m → parseNumber mangled s = _ := fun s m hs =>
    parseNumber_of_le true (by rw [hs.cur]; exact hsign) hne hd (by rw [hzero]; exact Nat.zero_le _)
  have hsource : Moves n null (parse mangled .sourceName) { c with cur := c.cur + 1 } true
      { c with cur := c.cur + 1 + (1 + d.length) } := by
    refine moves_call (.retry fun _ _ _ => .reading (x := 0) (fun s m hs => ?_) (fun s m hs => ?_) moves_identifier_zero)
    · rw [hnumber s m hs, hzero]
      rfl
    · rw [hnumber s m hs, ← Nat.add_assoc]
      exact (hs.advance _).advance _
  have hlocal : Moves n null (parse mangled .localSourceName) c true { c with cur := c.cur + 1 + (1 + d.length) } :=
    moves_call
      (.retry fun _ _ _ => .both (.both (moves_token hrest) hsource) (.optional (hE.silent .discriminator rfl nofun)))
  have hunqualified : Moves n null (parse mangled .unqualifiedName) c true { c with cur := c.cur + 1 + (1 + d.length) } :=
    moves_call (.either (.either (.either (hL.silent .operatorName rfl nofun) (hL.silent .ctorDtorName rfl nofun))
      (.both_false (hL.silent .sourceName rfl nofun))) (.both hlocal (.optional (hE.silent .abiTags rfl nofun))))
  have hunscoped : Moves n null (parse mangled .unscopedName) c true { c with cur := c.cur + 1 + (1 + d.length) } :=
    moves_call (.either_true hunqualified)
  have hname : Moves n null (parse mangled .name) c true { c with cur := c.cur + 1 + (1 + d.length) } :=
    moves_call (.either (.either (.either (hL.silent .nestedName rfl nofun) (hL.silent .localName rfl nofun))
      (moves_retry_false fun _ => .both (moves_call (.either_true hunscoped)) (hE.silent .templateArgs rfl nofun)))
        hunscoped)
  exact hL.typeName (by decide) ⟨rfl, rfl⟩ hname

end

section
variable {mangled : CString} {n : Nat} {c c' : Config} {negative : Bool} {t : Char} {d r : List Char}

/-! ### The argument list -/

theorem head_literal (hrest : c.rest = literal t negative d ++ r) : c.rest.headD '\x00' ∉ ['I', 'J', 'X'] := by
  rw [hrest, literal_append]
  exact (by decide : 'L' ∉ ['I', 'J', 'X'])

theorem goes_exprPrimary (ht : t ∈ builtinTypeList.map Prod.fst) (hrest : c.rest = literal t negative d ++ r)
    (happend : c.append = false) (hne : d ≠ []) (hd : ∀ x ∈ d, isDigit x = true) (hrange : InRange negative d) :
    Goes mangled n (parse mangled .exprPrimary) c true { c with rest := r } := by
  have h : Goes mangled n (parse mangled .exprPrimary) c true
      { c with rest := c.rest.drop (literal t negative d).length, argLevel := c.argLevel } :=
    goes_of_moves rfl happend fun _ hcur => moves_exprPrimary ht (hcur.trans hrest) hne hd hrange
  rwa [hrest, List.drop_left] at h

theorem goes_exprPrimary_false (ht : t ∈ builtinTypeList.map Prod.fst) (hrest : c.rest = literal t negative d ++ r)
    (happend : c.append = false) (hne : d ≠ []) (hd : ∀ x ∈ d, isDigit x = true) (hrange : ¬ InRange negative d) :
    Goes mangled n (parse mangled .exprPrimary) c false c :=
  goes_of_moves (k := 0) rfl happend fun _ hcur => moves_exprPrimary_false ht (hcur.trans hrest) hne hd hrange

theorem goes_type_literal_false (ht : t ∈ builtinTypeList.map Prod.fst) (hrest : c.rest = literal t negative d ++ r)
    (happend : c.append = false) (hne : d ≠ []) (hd : ∀ x ∈ d, isDigit x = true) (hnames : ¬ NamesNothing t negative d) :
    Goes mangled n (parse mangled .type) c false c :=
  goes_of_moves (k := 0) rfl happend fun cur hcur => by
    have hall : mangled.rest cur = 'L' :: t :: (sign negative ++ (d ++ 'E' :: r)) := by rw [hcur, hrest, literal_append]
    exact moves_type_false hall (moves_sourceName_literal ht (rest_succ hall) hne hd hnames)

theorem goes_type_nothing (hrest : c.rest = literal 'n' false d ++ r) (happend : c.append = false) (hne : d ≠ [])
    (hd : ∀ x ∈ d, isDigit x = true) (hzero : digitsValue 0 d = 0) :
    Goes mangled n (parse mangled .type) c true { c with rest := 'E' :: r } := by
  have h : Goes mangled n (parse mangled .type) c true
      { c with rest := c.rest.drop (2 + d.length), argLevel := c.argLevel } :=
    goes_of_moves rfl happend fun cur hcur => by
      have hmoves : Moves n false (parse mangled .type) ⟨cur, c.argLevel⟩ true ⟨cur + 1 + (1 + d.length), c.argLevel⟩ :=
        moves_type_nothing (hcur.trans hrest) hne hd hzero
      rwa [show cur + 1 + (1 + d.length) = cur + (2 + d.length) by omega] at hmoves
  have hdrop : c.rest.drop (2 + d.length) = 'E' :: r := by
    rw [hrest, literal_append, Nat.add_comm]
    exact List.drop_left
  rwa [hdrop] at h

/-- A literal as the only argument. -/
theorem goes_argument (ht : t ∈ builtinTypeList.map Prod.fst) (hrest : c.rest = literal t negative d ++ 'E' :: r)
    (happend : c.append = false) (hlevel : c.argLevel ≤ maxLevels) (hne : d ≠ []) (hd : ∀ x ∈ d, isDigit x = true)
    (hrange : InRange negative d) (hnames : ¬ NamesNothing t negative d) :
    Goes mangled n (parse mangled (.oneOrMore .templateArg)) c true
      { c with rest := 'E' :: r, argLevel := c.argLevel + 1 } := by
  have htype : Goes mangled n (parse mangled .type) { c with argLevel := c.argLevel + 1 } false
      { c with argLevel := c.argLevel + 1 } := goes_type_literal_false ht hrest happend hne hd hnames
  have hprimary : Goes mangled n (parse mangled .exprPrimary) { c with argLevel := c.argLevel + 1 } true
      { c with rest := 'E' :: r, argLevel := c.argLevel + 1 } := goes_exprPrimary ht hrest happend hne hd hrange
  exact goes_templateArgList hlevel
    (goes_templateArg_of (fun hc => head_literal hrest (List.mem_append_left ['X'] hc)) hlevel (.either htype hprimary))

theorem goes_argument_false (ht : t ∈ builtinTypeList.map Prod.fst) (hrest : c.rest = literal t negative d ++ r)
    (happend : c.append = false) (hlevel : c.argLevel ≤ maxLevels) (hne : d ≠ []) (hd : ∀ x ∈ d, isDigit x = true)
    (hrange : ¬ InRange negative d) :
    Goes mangled n (parse mangled .templateArg) c false { c with argLevel := c.argLevel + 1 } := by
  have hnames : ¬ NamesNothing t negative d := fun hnames => hrange fun hneg => absurd (hneg.symm.trans hnames.2.1) nofun
  have htype : Goes mangled n (parse mangled .type) { c with argLevel := c.argLevel + 1 } false
      { c with argLevel := c.argLevel + 1 } := goes_type_literal_false ht hrest happend hne hd hnames
  have hprimary : Goes mangled n (parse mangled .exprPrimary) { c with argLevel := c.argLevel + 1 } false
      { c with argLevel := c.argLevel + 1 } := goes_exprPrimary_false ht hrest happend hne hd hrange
  exact goes_templateArg_false (head_literal hrest) hlevel (.either htype hprimary)

/-- The `E` of the literal closes the list. -/
theorem goes_argument_nothing (hrest : c.rest = literal 'n' false d ++ r) (happend : c.append = false)
    (hlevel : c.argLevel ≤ maxLevels) (hne : d ≠ []) (hd : ∀ x ∈ d, isDigit x = true) (hzero : digitsValue 0 d = 0) :
    Goes mangled n (parse mangled (.oneOrMore .templateArg)) c true
      { c with rest := 'E' :: r, argLevel := c.argLevel + 1 } := by
  have htype : Goes mangled n (parse mangled .type) { c with argLevel := c.argLevel + 1 } true
      { c with rest := 'E' :: r, argLevel := c.argLevel + 1 } := goes_type_nothing hrest happend hne hd hzero
  exact goes_templateArgList hlevel
    (goes_templateArg_of (fun hc => head_literal hrest (List.mem_append_left ['X'] hc)) hlevel (.either_true htype))

/-! ### The whole name -/

/-- `f` with a literal as its template argument, and no parameters. -/
def literalEncoding (t : Char) (negative : Bool) (d : List Char) : List Char :=
  "_Z1fI".toList ++ literal t negative d ++ "Evv".toList

/-- The configuration behind `f`. -/
def afterF (mangled : CString) (rest : List Char) : Config :=
  { startConfig mangled with rest := rest, text := ['f'], ended := true }

/-- The configuration behind its template arguments. -/
def afterArguments (mangled : CString) (rest : List Char) : Config :=
  { startConfig mangled with rest := rest, text := "f<>".toList, ended := true, argLevel := 1 }

theorem identifier_f : Identifier ['f'] := identifier_of_letters (by decide) (by decide)

theorem named_f (rest : List Char) (e : Bool) :
    { startConfig mangled with rest := rest, ended := e }.named ['f'] r = afterF mangled r := by
  have hspace : spaceBefore [] ['f'] = [] := spaceBefore_of_head (by decide)
  simp only [Config.named, startConfig, afterF, hspace, if_true, List.nil_append, Bool.true_or]

theorem rest_of_literal (hm : mangled.chars = literalEncoding t negative d) :
    (startConfig mangled).rest = '_' :: 'Z' :: (sourceName ['f'] ++ 'I' :: (literal t negative d ++ "Evv".toList)) := by
  have hassoc : literalEncoding t negative d = "_Z1fI".toList ++ (literal t negative d ++ "Evv".toList) :=
    List.append_assoc ..
  exact hm.trans hassoc

theorem goes_f (hroom : 2 < n) (hr : r.headD '\x00' ≠ 'B')
    (hargs : Goes mangled n (parse mangled .templateArgs) (afterF mangled r) true c') :
    Goes mangled n (parse mangled .name) { startConfig mangled with rest := sourceName ['f'] ++ r } true c' := by
  have hnamed : { startConfig mangled with rest := sourceName ['f'] ++ r }.named ['f'] r = afterF mangled r :=
    named_f (sourceName ['f'] ++ r) false
  rw [← hnamed] at hargs
  exact goes_name_template rfl identifier_f (by decide) hroom hr hargs

theorem goes_f_plain (hroom : 2 < n) (hr : r.headD '\x00' ≠ 'B')
    (hargs : Goes mangled n (parse mangled .templateArgs) (afterF mangled r) false (afterF mangled r)) :
    Goes mangled n (parse mangled .name) { startConfig mangled with rest := sourceName ['f'] ++ r } true
      (afterF mangled r) := by
  have hnamed : { startConfig mangled with rest := sourceName ['f'] ++ r }.named ['f'] r = afterF mangled r :=
    named_f (sourceName ['f'] ++ r) false
  have hplain : Goes mangled n (parse mangled .name) { startConfig mangled with rest := sourceName ['f'] ++ r } true
      ({ startConfig mangled with rest := sourceName ['f'] ++ r }.named ['f'] r) :=
    goes_name_plain rfl identifier_f (by decide) hroom hr (by rw [hnamed]; exact hargs)
  rwa [hnamed] at hplain

/-- With the arguments behind it, the name. -/
theorem goes_f_arguments {rest : List Char} (hroom : 4 < n)
    (hargs : Goes mangled n (parse mangled (.oneOrMore .templateArg)) { afterF mangled rest with append := false } true
      { afterF mangled rest with rest := 'E' :: r, append := false, argLevel := 1 }) :
    Goes mangled n (parse mangled .name) { startConfig mangled with rest := sourceName ['f'] ++ 'I' :: rest } true
      (afterArguments mangled r) :=
  goes_f (by omega) (show 'I' ≠ 'B' by decide)
    (goes_templateArgs (c := afterF mangled ('I' :: rest)) rfl rfl (show ['f'].getLast? ≠ some '<' by decide) hroom hargs)

/-- Where the parameters begin there is no type. -/
theorem demangle_literal_stuck {rest : List Char} (hm : mangled.chars = literalEncoding t negative d)
    (hname : Goes mangled n (parse mangled .name)
      { startConfig mangled with rest := sourceName ['f'] ++ 'I' :: (literal t negative d ++ "Evv".toList) } true c')
    {x : Char} (hrest : c'.rest = x :: rest) (hx : x = 'I' ∨ x = 'E') (out : Nat → Char) :
    (demangle mangled (some out) n).1 = false := by
  have hstart : ∀ y ∈ ['I', 'E'], starts y .type = false ∧ y ∉ ['\x00', '.', '@'] := by decide
  obtain ⟨hsilent, hend⟩ := hstart x (by rcases hx with rfl | rfl <;> decide)
  have htype : Goes mangled n (parse mangled .type) { c' with append := false } false { c' with append := false } :=
    goes_silent .type (by rw [hrest]; exact hsilent) nofun
  have hbare : Goes mangled n (parse mangled .bareFunctionType) c' false c' :=
    goes_bareFunctionType_false (goes_oneOrMore_false .type htype)
  have hencoding := goes_encoding_data hname List.nil_prefix hbare hname
  exact demangle_of_goes_false (goes_topLevel_rest (rest_of_literal hm) hencoding hrest hend) out

theorem demangle_literal_false (hm : mangled.chars = literalEncoding t negative d) (ht : t ∈ builtinTypeList.map Prod.fst)
    (hne : d ≠ []) (hd : ∀ x ∈ d, isDigit x = true) (hbad : ¬ (InRange negative d ∧ ¬ NamesNothing t negative d))
    (hroom : 4 < n) (out : Nat → Char) : (demangle mangled (some out) n).1 = false := by
  by_cases hrange : InRange negative d
  · by_cases hnames : NamesNothing t negative d
    · obtain ⟨rfl, rfl, hzero⟩ := hnames
      have hargs : Goes mangled n (parse mangled (.oneOrMore .templateArg))
          { afterF mangled (literal 'n' false d ++ "Evv".toList) with append := false } true
          { afterF mangled (literal 'n' false d ++ "Evv".toList) with
            rest := 'E' :: "Evv".toList, append := false, argLevel := 1 } :=
        goes_argument_nothing rfl rfl (Nat.zero_le _) hne hd hzero
      exact demangle_literal_stuck hm (goes_f_arguments hroom hargs) rfl (Or.inr rfl) out
    · exact absurd ⟨hrange, hnames⟩ hbad
  · have hargument : Goes mangled n (parse mangled .templateArg)
        { afterF mangled (literal t negative d ++ "Evv".toList) with append := false } false
        { afterF mangled (literal t negative d ++ "Evv".toList) with append := false, argLevel := 1 } :=
      goes_argument_false ht rfl rfl (Nat.zero_le _) hne hd hrange
    have hargs :
        Goes mangled n (parse mangled .templateArgs) (afterF mangled ('I' :: (literal t negative d ++ "Evv".toList))) false
        (afterF mangled ('I' :: (literal t negative d ++ "Evv".toList))) := goes_templateArgs_false rfl hargument
    exact demangle_literal_stuck hm (goes_f_plain (by omega) (show 'I' ≠ 'B' by decide) hargs) rfl (Or.inl rfl) out

theorem demanglesTo_literal (hm : mangled.chars = literalEncoding t negative d) (ht : t ∈ builtinTypeList.map Prod.fst)
    (hne : d ≠ []) (hd : ∀ x ∈ d, isDigit x = true) (hrange : InRange negative d) (hnames : ¬ NamesNothing t negative d) :
    DemanglesTo mangled "f<>()".toList := by
  refine ⟨7, fun n hn out => ?_⟩
  have hargs : Goes mangled n (parse mangled (.oneOrMore .templateArg))
      { afterF mangled (literal t negative d ++ "Evv".toList) with append := false } true
      { afterF mangled (literal t negative d ++ "Evv".toList) with rest := "Evv".toList, append := false, argLevel := 1 } :=
    goes_argument ht rfl rfl (Nat.zero_le _) hne hd hrange hnames
  have hname : Goes mangled n (parse mangled .name) _ true (afterArguments mangled "vv".toList) :=
    goes_f_arguments (by omega) hargs
  have hvoid : ∀ x ∈ "vv".toList, x ∈ builtinTypeList.map Prod.fst := by decide
  have hfirst : Goes mangled n (parse mangled .type) { afterArguments mangled "vv".toList with append := false } true
      { afterArguments mangled ['v'] with append := false } := goes_type_letter (hvoid 'v' (by decide)) rfl rfl
  have hsecond :
      Goes mangled n (parse mangled (.zeroOrMore .type)) { afterArguments mangled ['v'] with append := false } true
      { afterArguments mangled [] with append := false } :=
        goes_letters (fun x hx => hvoid x (List.mem_cons_of_mem 'v' hx)) rfl rfl
  have hbare := goes_bareFunctionType (c := afterArguments mangled "vv".toList) rfl (show 3 + 3 < n by omega)
    (goes_oneOrMore .type hfirst hsecond)
  have htop := goes_topLevel (rest_of_literal hm) (goes_encoding_function hname hbare) rfl
  exact demangle_of_goes htop rfl (show 5 < n by omega) (show '\x00' ∉ "f<>()".toList by decide) out

/-- A literal is read exactly if its number fits into `int` or has no sign, and the whole name demangled exactly if the
literal is no name of length zero, too. -/
theorem literal_iff (ht : t ∈ builtinTypeList.map Prod.fst) (hne : d ≠ []) (hd : ∀ x ∈ d, isDigit x = true) :
    (∀ (mangled : CString) (s : State) (m : Mem) (r : List Char), mangled.rest s.mangledCur = literal t negative d ++ r →
      ((∃ s' m', parse mangled .exprPrimary s m = some (true, s', m') ∧
        s'.mangledCur = s.mangledCur + (literal t negative d).length) ↔ InRange negative d)) ∧
    ∀ mangled : CString, mangled.chars = literalEncoding t negative d →
      (DemanglesTo mangled "f<>()".toList ↔ InRange negative d ∧ ¬ NamesNothing t negative d) := by
  refine ⟨fun mangled s m r hrest => ⟨?_, fun hrange => ?_⟩, fun mangled hm => ⟨fun h => ?_, fun h => ?_⟩⟩
  · rintro ⟨s', m', hrun, -⟩
    refine Classical.byContradiction fun hrange => ?_
    obtain ⟨s₁, m₁, hfalse, -⟩ := moves_exprPrimary_false (c := ⟨s.mangledCur, s.argLevel⟩) ht hrest hne hd hrange
      (⟨rfl, rfl, rfl, rfl⟩ : At s.outEnd s.outNull _ s m)
    cases hrun.symm.trans hfalse
  · obtain ⟨s', m', hrun, hs'⟩ := moves_exprPrimary (c := ⟨s.mangledCur, s.argLevel⟩) ht hrest hne hd hrange
      (⟨rfl, rfl, rfl, rfl⟩ : At s.outEnd s.outNull _ s m)
    exact ⟨s', m', hrun, hs'.cur⟩
  · refine Classical.byContradiction fun hbad => ?_
    obtain ⟨size, hall⟩ := h
    have hfalse := demangle_literal_false (n := size + 5) hm ht hne hd hbad (by omega) fun _ => 'x'
    rw [(hall (size + 5) (by omega) fun _ => 'x').1] at hfalse
    cases hfalse
  · exact demanglesTo_literal hm ht hne hd h.1 h.2

end

/-- `f<-5>()`. -/
def minusFive : CString := ⟨literalEncoding 'i' true ['5'], by decide⟩

theorem literal_iff_minusFive : DemanglesTo minusFive "f<>()".toList ↔ InRange true ['5'] ∧ ¬ NamesNothing 'i' true ['5'] :=
  (literal_iff (by decide) (List.cons_ne_nil _ _) (by decide)).2 minusFive rfl

theorem not_literal : ¬ ∀ (t : Char) (negative : Bool) (d : List Char), t ∈ builtinTypeList.map Prod.fst → d ≠ [] →
    (∀ x ∈ d, isDigit x = true) →
      (∀ (mangled : CString) (s : State) (m : Mem) (r : List Char), mangled.rest s.mangledCur = literal t negative d ++ r →
        ∃ s' m', parse mangled .exprPrimary s m = some (true, s', m') ∧
          s'.mangledCur = s.mangledCur + (literal t negative d).length) ∧
      ∀ mangled : CString, mangled.chars = literalEncoding t negative d → DemanglesTo mangled "f<>()".toList := fun h => by
  have hint : 'i' ∈ builtinTypeList.map Prod.fst := by decide
  have hne : "2147483648".toList ≠ [] := by decide
  have hdigits : ∀ x ∈ "2147483648".toList, isDigit x = true := by decide
  have hrange : ¬ InRange true "2147483648".toList := by decide
  obtain ⟨hreads, -⟩ := h 'i' true "2147483648".toList hint hne hdigits
  let mangled : CString := ⟨literal 'i' true "2147483648".toList, by decide⟩
  have hrest : mangled.rest 0 = literal 'i' true "2147483648".toList ++ [] := rfl
  obtain ⟨s, m, hrun, -⟩ := hreads mangled (initState none 0) (initMem none) [] hrest
  obtain ⟨s', m', hfalse, -⟩ := moves_exprPrimary_false (c := ⟨0, 0⟩) hint hrest hne hdigits hrange
    (⟨rfl, rfl, rfl, rfl⟩ : At 0 true _ (initState none 0) (initMem none))
  cases hrun.symm.trans hfalse

end Glog.Demangle
