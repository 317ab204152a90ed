import Glog.Demangle.Config
import Glog.Demangle.Terminator

/-! # Source names

The configurations before and after a source name, through the functions that try other names first. -/

namespace Glog.Demangle
open Backtrack Backtrack.Parser

/-- A source name of the identifier `u`: its length in decimal, and the identifier. -/
def sourceName (u : List Char) : List Char := Nat.toDigits 10 u.length ++ u

/-- What the demangler takes for an identifier and prints as it stands. -/
structure Identifier (u : List Char) : Prop where
  nonempty : u ≠ []
  head : isDigit (u.headD '\x00') = false
  named : ¬ anonymousNamespacePrefix <+: u

theorem mem_digits {x : Char} (h : isDigit x = true) : x ∈ "0123456789".toList := by
  obtain ⟨hlow, hhigh⟩ := isDigit_bounds h
  rw [← Char.ofNat_toNat x]
  generalize x.toNat = k at hlow hhigh
  have hk : k = 48 ∨ k = 49 ∨ k = 50 ∨ k = 51 ∨ k = 52 ∨ k = 53 ∨ k = 54 ∨ k = 55 ∨ k = 56 ∨ k = 57 := by omega
  rcases hk with rfl | rfl | rfl | rfl | rfl | rfl | rfl | rfl | rfl | rfl <;> decide

theorem isDigit_of_isAlpha {x : Char} (h : isAlpha x = true) : isDigit x = false := by
  rw [← Bool.not_eq_true]
  intro hd
  have hdigits : ∀ y ∈ "0123456789".toList, isAlpha y = false := by decide
  rw [hdigits x (mem_digits hd)] at h
  cases h

theorem identifier_of_letters {u : List Char} (hne : u ≠ []) (h : ∀ x ∈ u, isAlpha x = true) : Identifier u where
  nonempty := hne
  head := by
    cases u with
    | nil => exact absurd rfl hne
    | cons x u => exact isDigit_of_isAlpha (h x List.mem_cons_self)
  named := fun hpre => absurd (h '_' (hpre.subset (by decide))) (by decide)

theorem isDigit_toDigits {k : Nat} {x : Char} (h : x ∈ Nat.toDigits 10 k) : isDigit x = true :=
  Nat.isDigit_of_mem_toDigits (by decide) (by decide) h

theorem nul_notMem_sourceName {u : List Char} (h : '\x00' ∉ u) : '\x00' ∉ sourceName u := by
  simp only [sourceName, List.mem_append, not_or]
  exact ⟨fun hd => absurd (isDigit_toDigits hd) (by decide), h⟩

theorem digitsValue_toDigits (k : Nat) : digitsValue 0 (Nat.toDigits 10 k) = k := by
  have h := Nat.ofDigitChars_ten_toDigits (n := k)
  rw [Nat.ofDigitChars_eq_foldl] at h
  simpa [digitsValue, Nat.mul_comm] using h

theorem takeWhile_sourceName {u r : List Char} (hu : u ≠ []) (hhead : isDigit (u.headD '\x00') = false) :
    (sourceName u ++ r).takeWhile isDigit = Nat.toDigits 10 u.length := by
  cases u with
  | nil => exact absurd rfl hu
  | cons x u =>
    rw [sourceName, List.append_assoc, List.takeWhile_append_of_pos fun y hy => isDigit_toDigits hy, List.cons_append,
      List.takeWhile_cons_of_neg (by rw [show isDigit x = false from hhead]; exact Bool.false_ne_true), List.append_nil]

theorem isDigit_head_sourceName (u r : List Char) : isDigit ((sourceName u ++ r).headD '\x00') = true := by
  unfold sourceName
  cases hd : Nat.toDigits 10 u.length with
  | nil => exact absurd hd Nat.toDigits_ne_nil
  | cons x rest => exact isDigit_toDigits (k := u.length) (by rw [hd]; exact List.mem_cons_self)

section
variable {mangled : CString} {n : Nat} {c c' : Config} {s : State} {m : Mem} {u r : List Char}

/-- A function that no digit starts fails before a source name. -/
theorem goes_silent_digit (f : Func)
    (h : (∀ x ∈ "0123456789".toList, starts x f = false) ∧ f ≠ .topLevelMangledName)
    (hd : isDigit (c.rest.headD '\x00') = true) : Goes mangled n (parse mangled f) c false c :=
  goes_silent f (h.1 _ (mem_digits hd)) h.2

theorem char_ne_n (hs : Matches mangled n c s m) (hd : isDigit (c.rest.headD '\x00') = true) : s.char mangled 0 ≠ 'n' :=
  fun hc => by
    rw [← hs.head, hc] at hd
    exact absurd hd (by decide)

theorem numeral_sourceName (hs : Matches mangled n c s m) (hrest : c.rest = sourceName u ++ r) (hu : u ≠ [])
    (hhead : isDigit (u.headD '\x00') = false) :
    numeralStart mangled s = s.mangledCur ∧ numeral mangled s = Nat.toDigits 10 u.length := by
  have hstart := numeralStart_of_ne (char_ne_n hs (hrest ▸ isDigit_head_sourceName u r))
  refine ⟨hstart, ?_⟩
  rw [numeral, hstart, hs.rest, hrest, takeWhile_sourceName hu hhead]

theorem parseNumber_sourceName (hs : Matches mangled n c s m) (hrest : c.rest = sourceName u ++ r) (hu : u ≠ [])
    (hhead : isDigit (u.headD '\x00') = false) (hlen : u.length ≤ intMax) :
    parseNumber mangled s = (some (u.length : Int), s.advance (Nat.toDigits 10 u.length).length) := by
  have hn := char_ne_n hs (hrest ▸ isDigit_head_sourceName u r)
  obtain ⟨hstart, hnumeral⟩ := numeral_sourceName hs hrest hu hhead
  have hnumber : IsNumber mangled s := by
    rw [IsNumber, hnumeral, digitsValue_toDigits]
    exact ⟨List.ne_nil_of_length_pos Nat.length_toDigits_pos, hlen⟩
  rw [parseNumber_of_isNumber hnumber, hnumeral, hstart, digitsValue_toDigits, beq_false_of_ne hn,
    if_neg Bool.false_ne_true]
  rfl

/-- A length that does not fit into `int` is no number. -/
theorem parseNumber_long (hs : Matches mangled n c s m) (hrest : c.rest = sourceName u ++ r) (hu : u ≠ [])
    (hhead : isDigit (u.headD '\x00') = false) (hlen : intMax < u.length) : parseNumber mangled s = (none, s) := by
  obtain ⟨hstart, hnumeral⟩ := numeral_sourceName hs hrest hu hhead
  have hnot : ¬ IsNumber mangled s := by
    rw [IsNumber, hnumeral, digitsValue_toDigits]
    exact fun h => Nat.not_le.mpr hlen h.2
  rw [parseNumber_of_not_isNumber hnot, hstart]

theorem atLeastNumCharsRemaining_of_le : ∀ {k i : Nat}, i + k ≤ mangled.length →
    atLeastNumCharsRemaining mangled i k = true
  | 0, _, _ => rfl
  | k + 1, i, h => by
    have hlt : i < mangled.chars.length := by
      unfold CString.length at h
      omega
    have hget : mangled.get i ≠ '\x00' := by
      rw [CString.get, List.getD_eq_getElem?_getD, List.getElem?_eq_getElem hlt]
      exact fun hnul => mangled.nulFree (hnul ▸ List.getElem_mem hlt)
    rw [atLeastNumCharsRemaining, bne_iff_ne.mpr hget, atLeastNumCharsRemaining_of_le (by omega), Bool.true_and]

/-- The configuration behind an identifier. -/
def Config.named (c : Config) (u r : List Char) : Config :=
  { c with
    rest := r
    text := if c.append then c.text ++ spaceBefore c.text u ++ u else c.text
    ended := c.append || c.ended }

/-- An identifier is appended as it stands. -/
theorem appendIdentifier_eq (hs : Matches mangled n c s m) (hrest : c.rest = u ++ r) (hu : Identifier u) :
    appendIdentifier mangled u.length s m = maybeAppendWithLength (.text u) u.length s m := by
  have hsome := hs.rest.trans hrest
  have hanon : identifierIsAnonymousNamespace mangled s u.length = false := by
    unfold identifierIsAnonymousNamespace
    by_cases hlong : (u.length : Int) > anonymousNamespacePrefix.length
    · rw [decide_eq_true hlong, Bool.true_and, hsome, ← Bool.not_eq_true, List.isPrefixOf_iff_prefix]
      exact fun hpre => hu.named (List.prefix_of_prefix_length_le hpre (List.prefix_append u r) (by omega))
    · rw [decide_eq_false hlong, Bool.false_and]
  unfold appendIdentifier
  rw [hanon, if_neg Bool.false_ne_true, hsome, Int.toNat_natCast, List.take_left]

theorem goes_identifier (hrest : c.rest = u ++ r) (hu : Identifier u) (hroom : c.text.length + u.length + 1 < n) :
    Goes mangled n (parseIdentifier mangled u.length) c true (c.named u r) := fun s m hs => by
  have hsome := hs.rest.trans hrest
  have hlen : u.length ≤ (mangled.rest s.mangledCur).length := by
    rw [hsome, List.length_append]
    exact Nat.le_add_right ..
  have hpos : 0 < u.length := List.length_pos_iff.mpr hu.nonempty
  have hmany : atLeastNumCharsRemaining mangled s.mangledCur u.length = true := by
    refine atLeastNumCharsRemaining_of_le ?_
    rw [CString.rest, List.length_drop] at hlen
    unfold CString.length
    omega
  have happended := appendIdentifier_eq hs hrest hu
  have hnext : Matches mangled n { c.named u r with rest := c.rest }
      (maybeAppendWithLength (.text u) u.length s m).1 (maybeAppendWithLength (.text u) u.length s m).2 := by
    cases happend : c.append with
    | true =>
      have h := matches_maybeAppendWithLength hs hu.nonempty hroom happend
      simpa only [Config.named, happend, if_true, Bool.true_or] using h
    | false =>
      have hsame : ({ c.named u r with rest := c.rest } : Config) = c := by
        cases c
        cases happend
        rfl
      rw [maybeAppendWithLength_off hs happend, hsame]
      exact hs
  refine ⟨(maybeAppendWithLength (.text u) u.length s m).1.advance u.length,
    (maybeAppendWithLength (.text u) u.length s m).2, ?_, ?_⟩
  · unfold parseIdentifier
    have hnot : ¬ ((u.length : Int) < 0 ∨ (mangled.rest s.mangledCur).length < u.length) := by omega
    simp only [Int.toNat_natCast, hmany, happended, hnot, if_false]
    refine if_neg ?_
    rintro (hneg | hfew)
    · omega
    · cases hfew
  · have h := hnext.advance u.length
    change Matches mangled n { c.named u r with rest := c.rest.drop u.length } _ _ at h
    rwa [hrest, List.drop_left] at h

theorem goes_sourceName (hrest : c.rest = sourceName u ++ r) (hu : Identifier u) (hlen : u.length ≤ intMax)
    (hroom : c.text.length + u.length + 1 < n) : Goes mangled n (parse mangled .sourceName) c true (c.named u r) := by
  have hidentifier : Goes mangled n (parse mangled (.identifier u.length)) { c with rest := u ++ r } true (c.named u r) :=
    goes_call (goes_identifier (c := { c with rest := u ++ r }) rfl hu hroom)
  refine goes_call (.retry fun _ _ _ => .reading (fun s m hs => ?_) (fun s m hs => ?_) hidentifier)
  · rw [parseNumber_sourceName hs hrest hu.nonempty hu.head hlen]
  · rw [parseNumber_sourceName hs hrest hu.nonempty hu.head hlen]
    have h := hs.advance (Nat.toDigits 10 u.length).length
    rwa [hrest, sourceName, List.append_assoc, List.drop_left] at h

theorem goes_sourceName_long (hrest : c.rest = sourceName u ++ r) (hu : Identifier u) (hlen : intMax < u.length) :
    Goes mangled n (parse mangled .sourceName) c false c := by
  refine goes_call (goes_retry_false fun _ _ _ s m hs => ⟨s, m, ?_, hs⟩)
  simp only [Parser.reading, parseNumber_long hs hrest hu.nonempty hu.head hlen]

/-! ### Names of one component -/

theorem isDigit_rest (hrest : c.rest = sourceName u ++ r) : isDigit (c.rest.headD '\x00') = true :=
  hrest ▸ isDigit_head_sourceName u r

theorem goes_unqualifiedName (hrest : c.rest = sourceName u ++ r) (hu : Identifier u) (hlen : u.length ≤ intMax)
    (hroom : c.text.length + u.length + 1 < n) (hr : r.headD '\x00' ≠ 'B') :
    Goes mangled n (parse mangled .unqualifiedName) c true (c.named u r) := by
  have hd := isDigit_rest hrest
  have habi : Goes mangled n (parse mangled .abiTags) (c.named u r) false (c.named u r) :=
    goes_silent .abiTags (beq_false_of_ne hr) nofun
  exact goes_call (.either_true (.either (.either (goes_silent_digit .operatorName (by decide) hd)
    (goes_silent_digit .ctorDtorName (by decide) hd)) (.both (goes_sourceName hrest hu hlen hroom) (.optional habi))))

theorem goes_unscopedName (hrest : c.rest = sourceName u ++ r) (hu : Identifier u) (hlen : u.length ≤ intMax)
    (hroom : c.text.length + u.length + 1 < n) (hr : r.headD '\x00' ≠ 'B') :
    Goes mangled n (parse mangled .unscopedName) c true (c.named u r) :=
  goes_call (.either_true (goes_unqualifiedName hrest hu hlen hroom hr))

theorem goes_unscopedName_long (hrest : c.rest = sourceName u ++ r) (hu : Identifier u) (hlen : intMax < u.length) :
    Goes mangled n (parse mangled .unscopedName) c false c := by
  have hd := isDigit_rest hrest
  have hunqualified : Goes mangled n (parse mangled .unqualifiedName) c false c :=
    goes_call (.either (.either (.either (goes_silent_digit .operatorName (by decide) hd)
      (goes_silent_digit .ctorDtorName (by decide) hd)) (.both_false (goes_sourceName_long hrest hu hlen)))
      (.both_false (goes_silent_digit .localSourceName (by decide) hd)))
  have hS : c.rest.headD '\x00' ≠ 'S' := fun hc => by
    rw [hc] at hd
    cases hd
  exact goes_call
    (.either hunqualified (goes_retry_false fun _ _ _ => .both_false (.both_false (goes_twoCharToken_false hS))))

/-! ### Whole mangled names -/

/-- The configuration at the start. -/
def startConfig (mangled : CString) : Config where
  rest := mangled.chars
  text := []
  ended := false
  append := true
  nestLevel := -1
  argLevel := 0

theorem matches_start (out : Nat → Char) :
    Matches mangled n (startConfig mangled) (initState (some out) n) (initMem (some out)) :=
  ⟨rfl, rfl, rfl, rfl, rfl, rfl, rfl, rfl, nofun, nofun⟩

/-- The string before the first NUL is the text that the buffer starts with, if that is terminated. -/
theorem cString_of_shows {text : List Char} {out : Nat → Char} (hlen : text.length < n) (hnul : '\x00' ∉ text)
    (hshows : ∀ (i : Nat) (h : i < text.length), out i = text[i]) (hend : out text.length = '\x00') :
    cString n out = some text := by
  have hfind : ((List.range n).find? fun i => out i == '\x00') = some text.length := by
    refine List.find?_range_eq_some.mpr ⟨by rw [hend]; rfl, List.mem_range.mpr hlen, fun j hj => ?_⟩
    rw [hshows j hj]
    have hne : text[j] ≠ '\x00' := fun h => hnul (h ▸ List.getElem_mem hj)
    simpa using hne
  rw [cString, hfind, Option.map_some]
  congr 1
  refine List.ext_getElem (by simp) fun i hi hi' => ?_
  rw [List.getElem_map, List.getElem_range]
  exact hshows i hi'

theorem demangle_of_matches {s' : State} {m' : Mem} {out : Nat → Char}
    (hrun : parse mangled .topLevelMangledName (initState (some out) n) (initMem (some out)) = some (true, s', m'))
    (hs' : Matches mangled n c' s' m') (hended : c'.ended = true) (hlen : c'.text.length < n) (hnul : '\x00' ∉ c'.text) :
    (demangle mangled (some out) n).1 = true ∧ cString n (demangle mangled (some out) n).2 = some c'.text := by
  rw [parseTopLevel_eq_some, Option.some_inj] at hrun
  unfold demangle
  simp only [hrun, hs'.overflowed]
  exact ⟨rfl, cString_of_shows hlen hnul hs'.shows (hs'.ended hended)⟩

theorem demangle_of_goes (h : Goes mangled n (parse mangled .topLevelMangledName) (startConfig mangled) true c')
    (hended : c'.ended = true) (hlen : c'.text.length < n) (hnul : '\x00' ∉ c'.text) (out : Nat → Char) :
    (demangle mangled (some out) n).1 = true ∧ cString n (demangle mangled (some out) n).2 = some c'.text := by
  obtain ⟨s', m', hrun, hs'⟩ := h (matches_start out)
  exact demangle_of_matches hrun hs' hended hlen hnul

theorem demangle_of_goes_false (h : Goes mangled n (parse mangled .topLevelMangledName) (startConfig mangled) false c')
    (out : Nat → Char) : (demangle mangled (some out) n).1 = false := by
  obtain ⟨s', m', hrun, -⟩ := h (matches_start out)
  rw [parseTopLevel_eq_some, Option.some_inj] at hrun
  unfold demangle
  simp only [hrun]
  rfl

/-- With a large enough buffer the mangled name is printed as `text`. -/
def DemanglesTo (mangled : CString) (text : List Char) : Prop :=
  ∃ size, ∀ n ≥ size, ∀ out : Nat → Char,
    (demangle mangled (some out) n).1 = true ∧ cString n (demangle mangled (some out) n).2 = some text

theorem DemanglesTo.unique {text text' : List Char} (h : DemanglesTo mangled text)
    (h' : DemanglesTo mangled text') : text = text' := by
  obtain ⟨size, h⟩ := h
  obtain ⟨size', h'⟩ := h'
  have hleft := (h (size + size') (Nat.le_add_right ..) fun _ => 'x').2
  have hright := (h' (size + size') (Nat.le_add_left ..) fun _ => 'x').2
  exact Option.some_inj.mp (hleft.symm.trans hright)

end

end Glog.Demangle
