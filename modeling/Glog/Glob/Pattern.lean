/-! # Glob patterns

A pattern is a list of tokens. A string belongs to its language if it can be cut into pieces, one for each token:
a star takes any piece, `one` any single symbol, and a letter itself. -/

namespace Glob
variable {α : Type}

inductive Token (α : Type)
  | star
  | one
  | letter (a : α)
  deriving DecidableEq

/-- What a token stands for. -/
def Token.Takes : Token α → List α → Prop
  | .star, _ => True
  | .one, w => ∃ a, w = [a]
  | .letter a, w => w = [a]

/-- The string is cut into the pieces. -/
inductive Cut : List (Token α) → List (List α) → List α → Prop
  | nil : Cut [] [] []
  | cons {t : Token α} {ts : List (Token α)} {w : List α} {ws : List (List α)} {s : List α} :
    t.Takes w → Cut ts ws s → Cut (t :: ts) (w :: ws) (w ++ s)

/-- The language of a pattern. -/
def Matches (pattern : List (Token α)) (s : List α) : Prop := ∃ pieces, Cut pattern pieces s

section
variable {t : Token α} {ts : List (Token α)} {a : α} {s : List α}

theorem Cut.flatten {ws : List (List α)} (h : Cut ts ws s) : ws.flatten = s := by
  induction h with
  | nil => rfl
  | cons _ _ ih => rw [List.flatten_cons, ih]

theorem matches_nil : Matches [] s ↔ s = [] := by
  constructor
  · rintro ⟨pieces, h⟩
    cases h
    rfl
  · rintro rfl
    exact ⟨[], .nil⟩

theorem matches_cons : Matches (t :: ts) s ↔ ∃ w v, s = w ++ v ∧ t.Takes w ∧ Matches ts v := by
  constructor
  · rintro ⟨pieces, h⟩
    cases h with
    | cons htakes hrest => exact ⟨_, _, rfl, htakes, _, hrest⟩
  · rintro ⟨w, v, rfl, htakes, pieces, hrest⟩
    exact ⟨w :: pieces, .cons htakes hrest⟩

theorem matches_star : Matches (.star :: ts) s ↔ ∃ w v, s = w ++ v ∧ Matches ts v := by
  rw [matches_cons]
  simp only [Token.Takes, true_and]

theorem matches_one : Matches (.one :: ts) s ↔ ∃ a v, s = a :: v ∧ Matches ts v := by
  rw [matches_cons]
  constructor
  · rintro ⟨w, v, rfl, ⟨a, rfl⟩, h⟩
    exact ⟨a, v, rfl, h⟩
  · rintro ⟨a, v, rfl, h⟩
    exact ⟨[a], v, rfl, ⟨a, rfl⟩, h⟩

theorem matches_letter : Matches (.letter a :: ts) s ↔ ∃ v, s = a :: v ∧ Matches ts v := by
  rw [matches_cons]
  constructor
  · rintro ⟨w, v, rfl, rfl, h⟩
    exact ⟨v, rfl, h⟩
  · rintro ⟨v, rfl, h⟩
    exact ⟨[a], v, rfl, rfl, h⟩

end

end Glob
