import Glog.Run.Loop

/-! # Computations with fuel

A computation that may not end is a function of the fuel; with more fuel it gives the same. Parts that follow one
another share the fuel, and each may be looked at with its own. -/

namespace Run
variable {ε σ ρ α β : Type}

/-- The computation ends with a result. -/
def Gives (x : Nat → ExceptT ε Option α) (r : Except ε α) : Prop := ∃ fuel, x fuel = some r

/-- More fuel changes no result. -/
def Steady (x : Nat → ExceptT ε Option α) : Prop := ∀ fuel fuel' r, fuel ≤ fuel' → x fuel = some r → x fuel' = some r

section
variable {x : ExceptT ε Option α} {f : α → ExceptT ε Option β} {e : ε} {b : β}

theorem bind_eq_error_iff : x >>= f = some (Except.error e) ↔
    x = some (Except.error e) ∨ ∃ a, x = some (Except.ok a) ∧ f a = some (Except.error e) := by
  rcases x with _ | (e' | a)
  · constructor
    · intro h
      cases h
    · rintro (h | ⟨a, h, -⟩)
      · cases h
      · cases h
  · constructor
    · intro h
      cases h
      exact Or.inl rfl
    · rintro (h | ⟨a, h, -⟩)
      · cases h
        rfl
      · cases h
  · constructor
    · exact fun h => Or.inr ⟨a, rfl, h⟩
    · rintro (h | ⟨a', h, hf⟩)
      · cases h
      · cases h
        exact hf

theorem bind_eq_ok_iff : x >>= f = some (Except.ok b) ↔ ∃ a, x = some (Except.ok a) ∧ f a = some (Except.ok b) := by
  rcases x with _ | (e' | a)
  · constructor
    · intro h
      cases h
    · rintro ⟨a, h, -⟩
      cases h
  · constructor
    · intro h
      cases h
    · rintro ⟨a, h, -⟩
      cases h
  · constructor
    · exact fun h => ⟨a, rfl, h⟩
    · rintro ⟨a', h, hf⟩
      cases h
      exact hf

end

section
variable {x : Nat → ExceptT ε Option α} {f : Nat → α → ExceptT ε Option β} {e : ε} {b : β}

theorem steady_const (x : ExceptT ε Option α) : Steady fun _ => x := fun _ _ _ _ h => h

theorem Steady.bind (hx : Steady x) (hf : ∀ a, Steady fun fuel => f fuel a) : Steady fun fuel => x fuel >>= f fuel := by
  intro fuel fuel' r hle h
  rcases r with e | b
  · rcases bind_eq_error_iff.mp h with h | ⟨a, ha, h⟩
    · exact bind_eq_error_iff.mpr (Or.inl (hx _ _ _ hle h))
    · exact bind_eq_error_iff.mpr (Or.inr ⟨a, hx _ _ _ hle ha, hf a _ _ _ hle h⟩)
  · obtain ⟨a, ha, h⟩ := bind_eq_ok_iff.mp h
    exact bind_eq_ok_iff.mpr ⟨a, hx _ _ _ hle ha, hf a _ _ _ hle h⟩

/-- There is one result at most. -/
theorem Steady.unique (hx : Steady x) {r r' : Except ε α} {fuel fuel' : Nat} (h : x fuel = some r)
    (h' : x fuel' = some r') : r = r' := by
  have hmax := hx _ _ _ (Nat.le_max_left fuel fuel') h
  rw [hx _ _ _ (Nat.le_max_right fuel fuel') h'] at hmax
  exact (Option.some.inj hmax).symm

/-- A sequence fails in its first part or in its second one. -/
theorem gives_bind_error (hx : Steady x) (hf : ∀ a, Steady fun fuel => f fuel a) :
    Gives (fun fuel => x fuel >>= f fuel) (.error e) ↔
      Gives x (.error e) ∨ ∃ a, Gives x (.ok a) ∧ Gives (fun fuel => f fuel a) (.error e) := by
  constructor
  · rintro ⟨fuel, h⟩
    rcases bind_eq_error_iff.mp h with h | ⟨a, ha, h⟩
    · exact Or.inl ⟨fuel, h⟩
    · exact Or.inr ⟨a, ⟨fuel, ha⟩, fuel, h⟩
  · rintro (⟨fuel, h⟩ | ⟨a, ⟨fuel, ha⟩, fuel', h⟩)
    · exact ⟨fuel, bind_eq_error_iff.mpr (Or.inl h)⟩
    · refine ⟨max fuel fuel', bind_eq_error_iff.mpr (Or.inr ⟨a, ?_, ?_⟩)⟩
      · exact hx _ _ _ (Nat.le_max_left fuel fuel') ha
      · exact hf a _ _ _ (Nat.le_max_right fuel fuel') h

theorem gives_bind_ok (hx : Steady x) (hf : ∀ a, Steady fun fuel => f fuel a) :
    Gives (fun fuel => x fuel >>= f fuel) (.ok b) ↔ ∃ a, Gives x (.ok a) ∧ Gives (fun fuel => f fuel a) (.ok b) := by
  constructor
  · rintro ⟨fuel, h⟩
    obtain ⟨a, ha, h⟩ := bind_eq_ok_iff.mp h
    exact ⟨a, ⟨fuel, ha⟩, fuel, h⟩
  · rintro ⟨a, ⟨fuel, ha⟩, fuel', h⟩
    refine ⟨max fuel fuel', bind_eq_ok_iff.mpr ⟨a, ?_, ?_⟩⟩
    · exact hx _ _ _ (Nat.le_max_left fuel fuel') ha
    · exact hf a _ _ _ (Nat.le_max_right fuel fuel') h

/-- What is made of a result adds no failure. -/
theorem gives_bind_pure_error (hx : Steady x) (g : α → β) :
    Gives (fun fuel => x fuel >>= fun a => pure (g a)) (.error e) ↔ Gives x (.error e) := by
  refine (gives_bind_error (f := fun _ a => pure (g a)) hx fun a => steady_const (pure (g a))).trans (or_iff_left ?_)
  rintro ⟨a, -, fuel, h⟩
  cases h

theorem gives_bind_pure_ok (hx : Steady x) (g : α → β) :
    Gives (fun fuel => x fuel >>= fun a => pure (g a)) (.ok b) ↔ ∃ a, Gives x (.ok a) ∧ g a = b := by
  refine (gives_bind_ok (f := fun _ a => pure (g a)) hx fun a => steady_const (pure (g a))).trans ?_
  refine exists_congr fun a => and_congr_right fun _ => ?_
  constructor
  · rintro ⟨fuel, h⟩
    cases h
    rfl
  · rintro rfl
    exact ⟨0, rfl⟩

end

/-- A loop with more turns to spare. -/
theorem steady_loop (body : σ → Except ε (Turn σ ρ)) (s : σ) : Steady fun fuel => loop body fuel s := by
  intro fuel fuel' r hle h
  induction fuel generalizing s fuel' with
  | zero => cases h
  | succ fuel ih =>
    obtain ⟨more, rfl⟩ := Nat.exists_eq_add_of_le' hle
    cases hresult : Turn.result (body s) with
    | some r' =>
      dsimp only at h ⊢
      rw [loop_of_result hresult] at h
      rw [Nat.add_succ, loop_of_result hresult]
      exact h
    | none =>
      obtain ⟨u, hu⟩ := Turn.result_eq_none.mp hresult
      dsimp only at h ⊢
      rw [loop_of_again hu] at h
      rw [Nat.add_succ, loop_of_again hu]
      exact ih u (more + fuel) (Nat.le_add_left fuel more) h

end Run
