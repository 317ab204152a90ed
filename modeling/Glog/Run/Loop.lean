/-! # Loops

A loop runs its body on a state, until the body leaves the loop or fails. It ends exactly if it gets to a state in
which the body does one of both. -/

namespace Run

inductive Turn (σ ρ : Type)
  | again (s : σ)
  | leave (r : ρ)

section
variable {ε σ ρ : Type}

/-- What a turn ends the loop with. -/
def Turn.result : Except ε (Turn σ ρ) → Option (Except ε ρ)
  | .error e => some (.error e)
  | .ok (.leave r) => some (.ok r)
  | .ok (.again _) => none

/-- At most so many turns; `none` if these are too few. -/
def loop (body : σ → Except ε (Turn σ ρ)) : Nat → σ → Option (Except ε ρ)
  | 0, _ => none
  | fuel + 1, s =>
    match body s with
    | .error e => some (.error e)
    | .ok (.leave r) => some (.ok r)
    | .ok (.again s) => loop body fuel s

/-- The states in which a turn begins. -/
inductive Visits (body : σ → Except ε (Turn σ ρ)) (s : σ) : σ → Prop
  | start : Visits body s s
  | again {t u : σ} : Visits body s t → body t = .ok (.again u) → Visits body s u

def Ends (body : σ → Except ε (Turn σ ρ)) (s : σ) : Prop := ∃ fuel r, loop body fuel s = some r

variable {body : σ → Except ε (Turn σ ρ)} {s t u : σ} {r : Except ε ρ} {fuel : Nat}

theorem Turn.result_eq_none {x : Except ε (Turn σ ρ)} : Turn.result x = none ↔ ∃ u, x = .ok (.again u) := by
  constructor
  · intro h
    rcases x with e | (u | r)
    · cases h
    · exact ⟨u, rfl⟩
    · cases h
  · rintro ⟨u, rfl⟩
    rfl

theorem loop_of_result (h : Turn.result (body s) = some r) : loop body (fuel + 1) s = some r := by
  rw [loop]
  cases hbody : body s with
  | error e =>
    rw [hbody] at h
    exact h
  | ok turn =>
    rw [hbody] at h
    cases turn with
    | leave r => exact h
    | again u => cases h

theorem loop_of_again (h : body s = .ok (.again t)) : loop body (fuel + 1) s = loop body fuel t := by
  rw [loop, h]

namespace Visits

theorem head (h : body s = .ok (.again t)) (hvisits : Visits body t u) : Visits body s u := by
  induction hvisits with
  | start => exact .again .start h
  | again _ hbody ih => exact ih.again hbody

/-- From a state on the way the loop goes on as from the start. -/
theorem loop_of (h : Visits body s t) (hloop : loop body fuel t = some r) : ∃ fuel', loop body fuel' s = some r := by
  induction h generalizing fuel with
  | start => exact ⟨fuel, hloop⟩
  | again _ hbody ih => exact ih ((loop_of_again hbody).trans hloop)

end Visits

/-- A loop has a result exactly if it gets to a turn that ends it so. -/
theorem loop_eq_some_iff : (∃ fuel, loop body fuel s = some r) ↔ ∃ t, Visits body s t ∧ Turn.result (body t) = some r := by
  constructor
  · rintro ⟨fuel, h⟩
    induction fuel generalizing s with
    | zero => cases h
    | succ fuel ih =>
      cases hresult : Turn.result (body s) with
      | some r' =>
        rw [loop_of_result hresult] at h
        exact ⟨s, .start, hresult.trans h⟩
      | none =>
        obtain ⟨u, hu⟩ := Turn.result_eq_none.mp hresult
        rw [loop_of_again hu] at h
        obtain ⟨t, ht, hr⟩ := ih h
        exact ⟨t, ht.head hu, hr⟩
  · rintro ⟨t, ht, hr⟩
    have hlast : loop body 1 t = some r := loop_of_result hr
    exact ht.loop_of hlast

theorem ends_iff : Ends body s ↔ ∃ t, Visits body s t ∧ Turn.result (body t) ≠ none := by
  constructor
  · rintro ⟨fuel, r, h⟩
    obtain ⟨t, ht, hr⟩ := loop_eq_some_iff.mp ⟨fuel, h⟩
    exact ⟨t, ht, by rw [hr]; exact Option.some_ne_none r⟩
  · rintro ⟨t, ht, hne⟩
    obtain ⟨r, hr⟩ := Option.ne_none_iff_exists'.mp hne
    obtain ⟨fuel, h⟩ := loop_eq_some_iff.mpr ⟨t, ht, hr⟩
    exact ⟨fuel, r, h⟩

/-- The end of a loop is that of its rest. -/
theorem Ends.of_visits (h : Ends body s) (hvisits : Visits body s t) : Ends body t := by
  induction hvisits with
  | start => exact h
  | again _ hbody ih =>
    obtain ⟨fuel, r, hloop⟩ := ih
    cases fuel with
    | zero => cases hloop
    | succ fuel => exact ⟨fuel, r, (loop_of_again hbody).symm.trans hloop⟩

/-- Where every turn makes a number smaller the loop ends. -/
theorem ends_of_decreasing (measure : σ → Nat)
    (hless : ∀ t u, Visits body s t → body t = .ok (.again u) → measure u < measure t) : Ends body s := by
  refine Classical.byContradiction fun hnot => ?_
  have hagain : ∀ t, Visits body s t → ∃ u, body t = .ok (.again u) := fun t ht =>
    Turn.result_eq_none.mp (Classical.byContradiction fun hne => hnot (ends_iff.mpr ⟨t, ht, hne⟩))
  have hlow : ∀ n, ∃ t, Visits body s t ∧ measure t + n ≤ measure s := by
    intro n
    induction n with
    | zero => exact ⟨s, .start, Nat.le_refl _⟩
    | succ n ih =>
      obtain ⟨t, ht, hle⟩ := ih
      obtain ⟨u, hu⟩ := hagain t ht
      have hlt := hless t u ht hu
      exact ⟨u, ht.again hu, by omega⟩
  obtain ⟨t, -, hle⟩ := hlow (measure s + 1)
  omega

/-- States that lead to one another only. -/
theorem not_ends_of_trap {T : σ → Prop} (hs : T s) (htrap : ∀ t, T t → ∃ u, T u ∧ body t = .ok (.again u)) :
    ¬ Ends body s := by
  rintro ⟨fuel, r, h⟩
  induction fuel generalizing s with
  | zero => cases h
  | succ fuel ih =>
    obtain ⟨u, hu, hbody⟩ := htrap s hs
    rw [loop_of_again hbody] at h
    exact ih hu h

end

/-! ### Loops that go the same way -/

section
variable {ε ε' σ σ' ρ ρ' : Type} {body : σ → Except ε (Turn σ ρ)} {body' : σ' → Except ε' (Turn σ' ρ')} {e : ε → ε'}
  {g : σ → σ'} {l : ρ → ρ'} {I : σ → Prop} {s : σ}

/-- A turn that is seen with fewer details. -/
def Turn.image (e : ε → ε') (g : σ → σ') (l : ρ → ρ') : Except ε (Turn σ ρ) → Except ε' (Turn σ' ρ')
  | .error x => .error (e x)
  | .ok (.leave r) => .ok (.leave (l r))
  | .ok (.again s) => .ok (.again (g s))

/-- Where the turns of a loop are those of another one, seen with fewer details, its results are too. -/
theorem loop_image (hturn : ∀ s, I s → body' (g s) = Turn.image e g l (body s))
    (hnext : ∀ s t, I s → body s = .ok (.again t) → I t) (hs : I s) (fuel : Nat) :
    loop body' fuel (g s) = (loop body fuel s).map fun r => (r.map l).mapError e := by
  induction fuel generalizing s with
  | zero => rfl
  | succ fuel ih =>
    have hbody' := hturn s hs
    rw [loop, loop, hbody']
    rcases hbody : body s with x | (t | r)
    · rfl
    · exact ih (hnext s t hs hbody)
    · rfl

end

end Run
