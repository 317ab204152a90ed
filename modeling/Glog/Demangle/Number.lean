import Glog.Demangle.Parse

/-! # Numbers in mangled names

`parseDigits` reads the longest run of digits, and gives its decimal value where that fits into `int`. -/

namespace Glog.Demangle

theorem isDigit_bounds {c : Char} (h : isDigit c = true) : 48 ≤ c.toNat ∧ c.toNat ≤ 57 := by
  simp only [isDigit, Bool.and_eq_true, decide_eq_true_eq] at h
  exact h

/-- The value of `number` followed by decimal digits. -/
def digitsValue (number : Nat) (digits : List Char) : Nat :=
  digits.foldl (fun n c => n * 10 + (c.toNat - '0'.toNat)) number

theorem le_digitsValue : ∀ (digits : List Char) (number : Nat), number ≤ digitsValue number digits
  | [], _ => Nat.le_refl _
  | c :: rest, number => by
    have h := le_digitsValue rest (number * 10 + (c.toNat - '0'.toNat))
    change number ≤ digitsValue (number * 10 + (c.toNat - '0'.toNat)) rest
    omega

theorem parseDigits_eq_some : ∀ {chars : List Char} {number count n k : Nat},
    parseDigits chars number count = some (n, k) →
      n = digitsValue number (chars.takeWhile isDigit) ∧ k = count + (chars.takeWhile isDigit).length
  | [], number, count, n, k, h => by
    simp only [parseDigits, Option.some.injEq, Prod.mk.injEq] at h
    exact ⟨h.1.symm, h.2.symm⟩
  | c :: rest, number, count, n, k, h => by
    unfold parseDigits at h
    split at h
    · rename_i hc
      split at h
      · cases h
      · split at h
        · cases h
        · obtain ⟨hn, hk⟩ := parseDigits_eq_some h
          rw [List.takeWhile_cons_of_pos hc]
          refine ⟨hn, ?_⟩
          rw [hk, List.length_cons]
          omega
    · rename_i hc
      rw [List.takeWhile_cons_of_neg hc]
      cases h
      exact ⟨rfl, rfl⟩

/-- A run of digits whose value fits into `int` is read. -/
theorem parseDigits_of_le : ∀ {chars : List Char} {number : Nat} (count : Nat),
    digitsValue number (chars.takeWhile isDigit) ≤ intMax →
      parseDigits chars number count =
        some (digitsValue number (chars.takeWhile isDigit), count + (chars.takeWhile isDigit).length)
  | [], _, _, _ => rfl
  | c :: rest, number, count, h => by
    unfold parseDigits
    by_cases hc : isDigit c = true
    · rw [List.takeWhile_cons_of_pos hc] at h ⊢
      change digitsValue (number * 10 + (c.toNat - '0'.toNat)) (rest.takeWhile isDigit) ≤ intMax at h
      have hle := Nat.le_trans (le_digitsValue _ _) h
      have hmul : ¬ number > intMax / 10 := by
        unfold intMax at hle ⊢
        omega
      have hsum : ¬ c.toNat - '0'.toNat > intMax - number * 10 := by omega
      rw [if_pos hc, if_neg hmul, if_neg hsum, parseDigits_of_le (count + 1) h, List.length_cons]
      congr 2
      omega
    · rw [List.takeWhile_cons_of_neg hc, if_neg hc]
      rfl

theorem parseDigits_le : ∀ {chars : List Char} {number count n k : Nat}, parseDigits chars number count = some (n, k) →
    number ≤ intMax → n ≤ intMax
  | [], number, count, n, k, h, hle => by
    cases h
    exact hle
  | x :: rest, number, count, n, k, h, hle => by
    unfold parseDigits at h
    split at h
    · split at h
      · cases h
      · split at h
        · cases h
        · exact parseDigits_le h (by omega)
    · cases h
      exact hle

/-- A run of digits whose value does not fit into `int` is not read. -/
theorem parseDigits_of_gt {chars : List Char} (h : intMax < digitsValue 0 (chars.takeWhile isDigit)) :
    parseDigits chars 0 0 = none := by
  cases hd : parseDigits chars 0 0 with
  | none => rfl
  | some nk =>
    obtain ⟨hvalue, -⟩ := parseDigits_eq_some hd
    have hle := parseDigits_le hd (Nat.zero_le _)
    rw [hvalue] at hle
    exact absurd hle (Nat.not_le.mpr h)

/-! ### The number at the cursor -/

section
variable {mangled : CString} {s : State}

/-- Where the digits begin: behind an `n`, if there is one. -/
def numeralStart (mangled : CString) (s : State) : Nat :=
  if s.char mangled 0 == 'n' then s.mangledCur + 1 else s.mangledCur

/-- The longest run of digits there. -/
def numeral (mangled : CString) (s : State) : List Char := (mangled.rest (numeralStart mangled s)).takeWhile isDigit

/-- There is a number, and its value fits into `int`. -/
def IsNumber (mangled : CString) (s : State) : Prop := numeral mangled s ≠ [] ∧ digitsValue 0 (numeral mangled s) ≤ intMax

instance (mangled : CString) (s : State) : Decidable (IsNumber mangled s) := inferInstanceAs (Decidable (_ ∧ _))

theorem numeralStart_of_ne (h : s.char mangled 0 ≠ 'n') : numeralStart mangled s = s.mangledCur := by
  rw [numeralStart, beq_false_of_ne h, if_neg Bool.false_ne_true]

theorem behind_sign : (if s.char mangled 0 == 'n' then s.advance 1 else s) =
    { s with mangledCur := numeralStart mangled s } := by
  unfold numeralStart
  split
  · rfl
  · rfl

theorem parseNumber_of_isNumber (h : IsNumber mangled s) : parseNumber mangled s =
    (some (if s.char mangled 0 == 'n' then -(digitsValue 0 (numeral mangled s) : Int)
      else digitsValue 0 (numeral mangled s)),
      { s with mangledCur := numeralStart mangled s + (numeral mangled s).length }) := by
  have hdigits := parseDigits_of_le 0 h.2
  rw [Nat.zero_add] at hdigits
  unfold parseNumber
  dsimp only
  rw [behind_sign, hdigits]
  exact if_neg fun hnil => h.1 (List.length_eq_zero_iff.mp hnil)

/-- Without a number the `n` is consumed. -/
theorem parseNumber_of_not_isNumber (h : ¬ IsNumber mangled s) :
    parseNumber mangled s = (none, { s with mangledCur := numeralStart mangled s }) := by
  unfold parseNumber
  dsimp only
  rw [behind_sign]
  by_cases hle : digitsValue 0 (numeral mangled s) ≤ intMax
  · have hnil : numeral mangled s = [] := Classical.byContradiction fun hne => h ⟨hne, hle⟩
    have hlength : ((mangled.rest (numeralStart mangled s)).takeWhile isDigit).length = 0 := congrArg List.length hnil
    rw [parseDigits_of_le 0 hle, Nat.zero_add]
    dsimp only
    rw [if_pos hlength]
  · rw [parseDigits_of_gt (Nat.lt_of_not_le hle)]

theorem isNumber_of_some {n : Int} (h : (parseNumber mangled s).1 = some n) : IsNumber mangled s :=
  Classical.byContradiction fun hnot => by
    rw [parseNumber_of_not_isNumber hnot] at h
    cases h

theorem not_isNumber_of_none (h : (parseNumber mangled s).1 = none) : ¬ IsNumber mangled s := fun hnumber => by
  rw [parseNumber_of_isNumber hnumber] at h
  cases h

end

end Glog.Demangle
