import Glog.Demangle.Cursor
import Glog.Text.Scan

/-! # Numbers, character by character

`ParseNumber` as it runs: every character is read at its index, and every arithmetic operation has to stay in the range of
`int`. It gives what `parseNumber` gives, and no fault. -/

namespace Glog.Demangle
namespace Indexed
open Run

inductive Fault
  /-- A character behind the terminator is read. -/
  | outOfBounds
  /-- The result of an operation is not an `int`. -/
  | overflow

abbrev Machine := ExceptT Fault Option

def Machine.of {α : Type} (x : Except Fault α) : Machine α := ExceptT.mk (some x)

/-- `str[i]` -/
def peek (str : CString) (i : Nat) : Except Fault Char := Scan.peek .outOfBounds '\x00' str.chars i

/-- The result of an operation on values of type `int`. -/
def int (x : Int) : Except Fault Int := if -(intMax : Int) - 1 ≤ x ∧ x ≤ intMax then .ok x else .error .overflow

structure Digits where
  p : Nat
  number : Int

/-- A turn of the loop of `ParseNumber`; it is left with nothing where the function returns false. -/
def digitTurn (mangled : CString) (s : Digits) : Except Fault (Turn Digits (Option Digits)) := do
  let c ← peek mangled s.p
  if c ≠ '\x00' ∧ isDigit c = true then
    -- Prevent signed integer overflow when multiplying.
    if s.number > intMax / 10 then return .leave none
    else
      let digit ← int (c.toNat - '0'.toNat)
      let shifted ← int (s.number * 10)
      -- Prevent signed integer overflow when summing.
      let room ← int (intMax - shifted)
      if digit > room then return .leave none
      else
        let number ← int (shifted + digit)
        return .again ⟨s.p + 1, number⟩
  else return .leave (some s)

/-- What `ParseNumber` does behind its loop; `numberOut` is what the pointer points at, `none` for `nullptr`. -/
def converted (numberOut : Option Int) (negative : Bool) (s : State) : Option Digits → Machine (Bool × Option Int × State)
  | none => return (false, numberOut, s)
  | some digits => do
    if digits.p ≠ s.mangledCur then
      match numberOut with
      | none => return (true, none, { s with mangledCur := digits.p })
      | some _ =>
        let value ← Machine.of (int (digits.number * if negative then -1 else 1))
        return (true, some value, { s with mangledCur := digits.p })
    else return (false, numberOut, s)

def parseNumber (mangled : CString) (fuel : Nat) (numberOut : Option Int) (s : State) :
    Machine (Bool × Option Int × State) := do
  let c ← Machine.of (peek mangled s.mangledCur)
  let negative := c == 'n'
  let s := if negative then s.advance 1 else s
  let digits ← ExceptT.mk (loop (digitTurn mangled) fuel ⟨s.mangledCur, 0⟩)
  converted numberOut negative s digits

end Indexed

open Run Indexed

section
variable {mangled : CString} {s : State} {p start number count fuel : Nat} {chars : List Char} {c : Char}
    {numberOut : Option Int}

theorem Indexed.peek_eq (h : p ≤ mangled.length) : peek mangled p = .ok ((mangled.rest p).headD '\x00') := Scan.peek_eq h

theorem Indexed.int_eq {x : Int} (hlow : -(intMax : Int) - 1 ≤ x) (hhigh : x ≤ intMax) : int x = .ok x :=
  if_pos ⟨hlow, hhigh⟩

theorem rest_cons_lt (h : mangled.rest p = c :: chars) : p < mangled.length := by
  have hlength := congrArg List.length h
  rw [CString.rest, List.length_drop, List.length_cons] at hlength
  unfold CString.length
  omega

/-! ### The loop -/

theorem digitTurn_stop (hp : p ≤ mangled.length) (h : isDigit ((mangled.rest p).headD '\x00') = false) {n : Int} :
    digitTurn mangled ⟨p, n⟩ = .ok (.leave (some ⟨p, n⟩)) := by
  unfold digitTurn
  rw [Indexed.peek_eq hp]
  dsimp only [bind, Except.bind]
  rw [if_neg fun hc => Bool.false_ne_true (h.symm.trans hc.2)]
  rfl

/-- Where the value stays in the range of `int` so does every operation, and otherwise the loop is left before the one
    that would not. -/
theorem digitTurn_digit (hrest : mangled.rest p = c :: chars) (hc : isDigit c = true) :
    digitTurn mangled ⟨p, number⟩ =
      if number > intMax / 10 then .ok (.leave none)
      else if c.toNat - '0'.toNat > intMax - number * 10 then .ok (.leave none)
      else .ok (.again ⟨p + 1, (number * 10 + (c.toNat - '0'.toNat) : Nat)⟩) := by
  have hp : p ≤ mangled.length := Nat.le_of_lt (rest_cons_lt hrest)
  have hnul : c ≠ '\x00' := by
    rintro rfl
    exact absurd hc (by decide)
  have hmul : (number : Int) > intMax / 10 ↔ number > intMax / 10 := by
    unfold intMax
    omega
  obtain ⟨hlow, hhigh⟩ := isDigit_bounds hc
  rw [show '0'.toNat = 48 from rfl]
  unfold digitTurn
  rw [Indexed.peek_eq hp, hrest, List.headD_cons]
  dsimp only [bind, Except.bind]
  rw [if_pos ⟨hnul, hc⟩]
  by_cases hbig : number > intMax / 10
  · rw [if_pos hbig, if_pos (hmul.mpr hbig)]
    rfl
  · have hshift : number * 10 ≤ intMax := by
      unfold intMax at hbig ⊢
      omega
    have hdigit : int ((c.toNat : Int) - '0'.toNat) = .ok ((c.toNat : Int) - '0'.toNat) :=
      Indexed.int_eq (by rw [show '0'.toNat = 48 from rfl]; omega)
        (by rw [show '0'.toNat = 48 from rfl]; unfold intMax; omega)
    have hshifted : int ((number : Int) * 10) = .ok ((number : Int) * 10) := Indexed.int_eq (by omega) (by omega)
    have hroom : int ((intMax : Int) - number * 10) = .ok ((intMax : Int) - number * 10) :=
      Indexed.int_eq (by omega) (by omega)
    rw [if_neg hbig, if_neg (mt hmul.mp hbig), hdigit]
    dsimp only
    rw [hshifted]
    dsimp only
    rw [hroom]
    dsimp only
    rw [show '0'.toNat = 48 from rfl]
    by_cases hsum : c.toNat - 48 > intMax - number * 10
    · rw [if_pos hsum, if_pos (by omega)]
      rfl
    · rw [if_neg hsum, if_neg (by omega), Indexed.int_eq (by omega) (by omega)]
      dsimp only
      rw [show (number : Int) * 10 + ((c.toNat : Int) - (48 : Nat)) = (number * 10 + (c.toNat - 48) : Nat) by omega]
      rfl

/-- The loop reads what `parseDigits` reads. -/
theorem loop_digits (hstart : start + count ≤ mangled.length) (hrest : mangled.rest (start + count) = chars)
    (hfuel : chars.length < fuel) :
    loop (digitTurn mangled) fuel ⟨start + count, number⟩ =
      some (.ok ((parseDigits chars number count).map fun r => ⟨start + r.2, r.1⟩)) := by
  induction chars generalizing number count fuel with
  | nil =>
    obtain ⟨fuel, rfl⟩ := Nat.exists_eq_add_of_lt hfuel
    rw [loop, digitTurn_stop hstart (by rw [hrest]; rfl)]
    rfl
  | cons c chars ih =>
    cases fuel with
    | zero => cases hfuel
    | succ fuel =>
      rw [loop, parseDigits]
      by_cases hc : isDigit c = true
      · rw [if_pos hc, digitTurn_digit hrest hc]
        by_cases hbig : number > intMax / 10
        · rw [if_pos hbig, if_pos hbig]
          rfl
        rw [if_neg hbig, if_neg hbig]
        by_cases hsum : c.toNat - '0'.toNat > intMax - number * 10
        · rw [if_pos hsum, if_pos hsum]
          rfl
        rw [if_neg hsum, if_neg hsum]
        rw [List.length_cons] at hfuel
        exact @ih (number * 10 + (c.toNat - '0'.toNat)) (count + 1) fuel (rest_cons_lt hrest) (rest_succ hrest) (by omega)
      · rw [if_neg hc, digitTurn_stop hstart (by rw [hrest, List.headD_cons]; exact Bool.eq_false_iff.mpr hc)]
        rfl

/-! ### The number -/

/-- What the caller sees of an answer of `parseNumber`. -/
def Indexed.seen (numberOut : Option Int) (r : Option Int × State) : Bool × Option Int × State :=
  match r.1 with
  | none => (false, numberOut, r.2)
  | some value => (true, numberOut.map fun _ => value, r.2)

theorem converted_eq (negative : Bool) {n : Nat} (hn : n ≤ intMax) :
    converted numberOut negative s (some ⟨s.mangledCur + count, n⟩) =
      some (.ok (Indexed.seen numberOut
        (if count = 0 then (none, s) else (some (if negative then -(n : Int) else n), s.advance count)))) := by
  unfold converted
  dsimp only
  by_cases hcount : count = 0
  · rw [if_neg (by omega), if_pos hcount]
    rfl
  · rw [if_pos (by omega), if_neg hcount]
    cases numberOut with
    | none => rfl
    | some _ =>
      have hint : int ((n : Int) * if negative then -1 else 1) = .ok (if negative then -(n : Int) else n) := by
        cases negative with
        | true => exact (congrArg int (Int.mul_neg_one _)).trans (Indexed.int_eq (by omega) (by omega))
        | false => exact (congrArg int (Int.mul_one _)).trans (Indexed.int_eq (by omega) (by omega))
      dsimp only
      rw [hint]
      rfl

/-- Character by character `ParseNumber` gives what `parseNumber` gives. -/
theorem parseNumber_indexed (hs : s.mangledCur ≤ mangled.length) (hfuel : mangled.length < fuel) :
    Indexed.parseNumber mangled fuel numberOut s =
      some (.ok (Indexed.seen numberOut (Demangle.parseNumber mangled s))) := by
  have hchar : peek mangled s.mangledCur = .ok (s.char mangled 0) := by
    rw [Indexed.peek_eq hs, head_eq_rest]
  have hadvance : ∀ negative : Bool, (s.char mangled 0 == 'n') = negative →
      (if negative then s.advance 1 else s).mangledCur ≤ mangled.length := by
    rintro (_ | _) hn
    · exact hs
    · exact lt_length_of_char mangled (beq_iff_eq.mp hn) (by decide)
  unfold Indexed.parseNumber Demangle.parseNumber
  rw [hchar]
  dsimp only
  change (ExceptT.mk (loop (digitTurn mangled) fuel _) >>= _ : Machine _) = _
  generalize hn : (s.char mangled 0 == 'n') = negative
  have hcur := hadvance negative hn
  generalize (if negative = true then s.advance 1 else s) = s₁ at hcur ⊢
  have hloop := @loop_digits mangled s₁.mangledCur 0 0 fuel _ hcur rfl (by
    rw [CString.rest, List.length_drop]
    unfold CString.length at hfuel
    omega)
  rw [Nat.add_zero] at hloop
  rw [show (0 : Int) = (0 : Nat) from rfl, hloop]
  cases hdigits : parseDigits (mangled.rest s₁.mangledCur) 0 0 with
  | none => rfl
  | some r => exact converted_eq negative (parseDigits_le hdigits (Nat.zero_le _))

/-! ### What a number is -/

/-- What `ParseNumber` is to answer, to write through its pointer and to make of the state. -/
structure ParsesNumber (mangled : CString) (numberOut : Option Int) (s : State) (ok : Bool) (out : Option Int)
    (s' : State) :
    Prop where
  accepts : ok = true ↔ numeral mangled s ≠ [] ∧ digitsValue 0 (numeral mangled s) ≤ intMax
  number : ok = true → out = numberOut.map fun _ =>
    if s.char mangled 0 == 'n' then -(digitsValue 0 (numeral mangled s) : Int) else digitsValue 0 (numeral mangled s)
  cursor : ok = true → s' = { s with mangledCur := numeralStart mangled s + (numeral mangled s).length } ∧
    isDigit (s'.char mangled 0) = false

theorem isDigit_behind_numeral :
    isDigit ((mangled.rest (numeralStart mangled s + (numeral mangled s).length)).headD '\x00') = false := by
  rw [numeral, CString.rest, CString.rest, Scan.drop_skip]
  cases hrest : (mangled.chars.drop (numeralStart mangled s)).dropWhile isDigit with
  | nil => rfl
  | cons c chars =>
    have hne : (mangled.chars.drop (numeralStart mangled s)).dropWhile isDigit ≠ [] := by
      rw [hrest]
      exact List.cons_ne_nil c chars
    have hhead := List.head_dropWhile_not isDigit hne
    simpa [hrest] using hhead

/-- `ParseNumber` reads exactly the numbers that fit into an `int`; every character that it reads is one of the string or
    its terminator, and no operation overflows. -/
theorem parseNumber_exact (mangled : CString) (numberOut : Option Int) (s : State) (hs : s.mangledCur ≤ mangled.length) :
    ∃ ok out s', (∀ fuel, mangled.length < fuel → Indexed.parseNumber mangled fuel numberOut s = some (.ok (ok, out, s'))) ∧
      ParsesNumber mangled numberOut s ok out s' := by
  by_cases h : IsNumber mangled s
  · refine ⟨true, _, _, fun fuel hfuel => ?_, ⟨fun _ => h, fun _ => rfl⟩, fun _ => rfl, fun _ => ⟨rfl, ?_⟩⟩
    · rw [parseNumber_indexed hs hfuel, parseNumber_of_isNumber h]
      rfl
    · rw [head_eq_rest]
      exact isDigit_behind_numeral
  · refine ⟨false, numberOut, { s with mangledCur := numeralStart mangled s }, fun fuel hfuel => ?_,
      ⟨nofun, fun hnumber => absurd hnumber h⟩, nofun, nofun⟩
    rw [parseNumber_indexed hs hfuel, parseNumber_of_not_isNumber h]
    rfl

theorem parseNumber_exact_twelve : ∃ s', s'.mangledCur = 3 ∧ ∀ fuel, 4 < fuel →
    Indexed.parseNumber ⟨"n12_".toList, by decide⟩ fuel (some (-1)) (initState none 0) =
      some (.ok (true, some (-12), s')) := by
  obtain ⟨ok, out, s', hrun, hparses⟩ :=
    parseNumber_exact ⟨"n12_".toList, by decide⟩ (some (-1)) (initState none 0) (Nat.zero_le _)
  have hok : ok = true := hparses.accepts.mpr (by decide)
  rw [hok, hparses.number hok] at hrun
  exact ⟨s', by rw [(hparses.cursor hok).1]; rfl, hrun⟩

end

end Glog.Demangle
