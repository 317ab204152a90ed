/-! # A variable that calls may set

A variable that does not belong to the code that runs: each call that the code makes may set it, to anything. -/

namespace Ambient

/-- The variable, and how many calls have been made. -/
structure Cell (α : Type) where
  value : α
  calls : Nat

section
variable {α : Type} {sets : Nat → Option α} {v : α} {n : Nat} {c : Cell α}

namespace Cell

def set (v : α) (c : Cell α) : Cell α := { c with value := v }

/-- One call; `sets` tells what each of them sets the variable to, if it does. -/
def call (sets : Nat → Option α) (c : Cell α) : Cell α := ⟨(sets c.calls).getD c.value, c.calls + 1⟩

/-- Calls one after the other. -/
def after (sets : Nat → Option α) : Nat → Cell α → Cell α
  | 0, c => c
  | n + 1, c => (c.call sets).after sets n

end Cell

theorem value_call (h : ∀ k, sets k = some v) : (c.call sets).value = v := by
  rw [Cell.call, h]
  rfl

/-- Where all calls set the variable to the same, it remains so. -/
theorem value_after (h : ∀ k, sets k = some v) (hvalue : c.value = v) : (c.after sets n).value = v := by
  induction n generalizing c with
  | zero => exact hvalue
  | succ n ih => exact ih (c := c.call sets) (value_call h)

theorem value_after_of_pos (h : ∀ k, sets k = some v) (hpos : 0 < n) : (c.after sets n).value = v := by
  cases n with
  | zero => exact absurd hpos (Nat.lt_irrefl 0)
  | succ n => exact value_after (c := c.call sets) h (value_call h)

end

end Ambient
