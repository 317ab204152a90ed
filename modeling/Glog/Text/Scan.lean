import Mathlib.Data.List.Basic
import Glog.Run.Loop

/-! # Scanning a terminated string

A string is a text with its terminator, and what lies behind the terminator must not be read. Scans go from index to
index: they skip what is of a kind, and look one character ahead where the first one allows it. -/

namespace Scan
open Run

section
variable {α ε : Type} (fault : ε) (nul : α) (text : List α)

/-- `str[i]` -/
def peek (i : Nat) : Except ε α :=
  match (text ++ [nul])[i]? with
  | some a => .ok a
  | none => .error fault

/-- `str[i] == a && c(str[i + 1])`; the second character is read behind the right first one only. -/
def followedBy [DecidableEq α] (a : α) (c : α → Bool) (i : Nat) : Except ε Bool := do
  let first ← peek fault nul text i
  if first = a then
    let second ← peek fault nul text (i + 1)
    return c second
  else return false

def skipTurn (c : α → Bool) (i : Nat) : Except ε (Turn Nat Nat) := do
  let a ← peek fault nul text i
  return if c a then .again (i + 1) else .leave i

/-- `while (c(str[i])) ++i;` -/
def skipWhile (c : α → Bool) (fuel i : Nat) : Option (Except ε Nat) := loop (skipTurn fault nul text c) fuel i

end

section
variable {α ε : Type} {fault : ε} {nul a : α} {text : List α} {c : α → Bool} {fuel i : Nat}

/-- In the text or at its terminator a character is read. -/
theorem peek_eq (h : i ≤ text.length) : peek fault nul text i = .ok ((text.drop i).headD nul) := by
  unfold peek
  rcases Nat.lt_or_eq_of_le h with hlt | rfl
  · rw [List.getElem?_append_left hlt, List.getElem?_eq_getElem hlt, List.drop_eq_getElem_cons hlt, List.headD_cons]
  · rw [List.getElem?_concat_length, List.drop_length, List.headD_nil]

theorem lt_of_head (h : i ≤ text.length) (hne : (text.drop i).headD nul ≠ nul) : i < text.length := by
  rcases Nat.lt_or_eq_of_le h with hlt | rfl
  · exact hlt
  · rw [List.drop_length, List.headD_nil] at hne
    exact absurd rfl hne

theorem followedBy_eq [DecidableEq α] (h : i ≤ text.length) (hne : a ≠ nul) : followedBy fault nul text a c i =
    .ok (decide ((text.drop i).headD nul = a) && c ((text.drop (i + 1)).headD nul)) := by
  unfold followedBy
  rw [peek_eq h]
  dsimp only [bind, Except.bind]
  by_cases hfirst : (text.drop i).headD nul = a
  · have hlt := lt_of_head h (by rw [hfirst]; exact hne)
    rw [if_pos hfirst, peek_eq hlt, decide_eq_true hfirst, Bool.true_and]
    rfl
  · rw [if_neg hfirst, decide_eq_false hfirst, Bool.false_and]
    rfl

theorem skipTurn_eq (h : i ≤ text.length) :
    skipTurn fault nul text c i = .ok (if c ((text.drop i).headD nul) then .again (i + 1) else .leave i) := by
  rw [skipTurn, peek_eq h]
  rfl

/-- A scan stops at the first character of another kind, at the terminator at the latest. -/
theorem skipWhile_eq (hnul : c nul = false) (h : i ≤ text.length) (hfuel : text.length - i < fuel) :
    skipWhile fault nul text c fuel i = some (.ok (i + ((text.drop i).takeWhile c).length)) := by
  unfold skipWhile
  induction fuel generalizing i with
  | zero => omega
  | succ fuel ih =>
    rw [loop, skipTurn_eq h]
    by_cases hc : c ((text.drop i).headD nul) = true
    · have hlt := lt_of_head h fun heq => by
        rw [heq, hnul] at hc
        cases hc
      rw [if_pos hc]
      rw [List.drop_eq_getElem_cons hlt, List.headD_cons] at hc
      dsimp only
      rw [ih (show i + 1 ≤ text.length from hlt) (by omega), List.drop_eq_getElem_cons hlt,
        List.takeWhile_cons_of_pos hc, List.length_cons]
      congr 2
      omega
    · rw [if_neg hc]
      dsimp only
      have hstop : (text.drop i).takeWhile c = [] := by
        cases hrest : text.drop i with
        | nil => rfl
        | cons x rest =>
          rw [hrest, List.headD_cons] at hc
          exact List.takeWhile_cons_of_neg hc
      rw [hstop, List.length_nil, Nat.add_zero]

theorem drop_skip : text.drop (i + ((text.drop i).takeWhile c).length) = (text.drop i).dropWhile c := by
  rw [← List.drop_drop]
  conv => lhs; arg 2; rw [← List.takeWhile_append_dropWhile (p := c) (l := text.drop i)]
  rw [List.drop_left]

end

end Scan
