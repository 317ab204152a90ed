/-! # Backtracking parsers

A recursive-descent parser over two kinds of state: a cursor state `σ`, which a rejected alternative
puts back, and a memory `μ`, which it does not. A parser answers with a verdict and both states, or
with `none` when the fuel of the recursion is spent.

This file holds the combinators, what a run of each of them looks like, and how far each of them
moves the cursor. -/

/-- A backtracking parser; `none` stands for exhausted fuel. -/
def Backtrack.Parser (σ μ : Type) : Type := σ → μ → Option (Bool × σ × μ)

namespace Backtrack.Parser
variable {σ μ α : Type}

/-- Gives the verdict `b` and changes nothing. -/
def ret (b : Bool) : Parser σ μ := fun s m => some (b, s, m)

/-- `if (p) q else r`. -/
def branch (p q r : Parser σ μ) : Parser σ μ := fun s m =>
  match p s m with
  | some (true, s', m') => q s' m'
  | some (false, s', m') => r s' m'
  | none => none

/-- `p && q`. -/
def both (p q : Parser σ μ) : Parser σ μ := branch p q (ret false)

/-- `p || q`. -/
def either (p q : Parser σ μ) : Parser σ μ := branch p (ret true) q

instance : AndOp (Parser σ μ) := ⟨both⟩
instance : OrOp (Parser σ μ) := ⟨either⟩

/-- Runs `p` and forgets its verdict. -/
def optional (p : Parser σ μ) : Parser σ μ := branch p (ret true) (ret true)

/-- Changes the states and accepts. -/
def act (f : σ → μ → σ × μ) : Parser σ μ := fun s m => some (true, f s m)

/-- Accepts with an effect where `find` finds something, and rejects with none elsewhere. -/
def lookup (find : σ → Option α) (f : α → σ → μ → σ × μ) : Parser σ μ := fun s m =>
  match find s with
  | some a => some (true, f a s m)
  | none => some (false, s, m)

/-- Accepts where `c` holds. -/
def ensure (c : σ → Bool) : Parser σ μ := fun s m => some (c s, s, m)

/-- Reads a value off the cursor state and goes on with it. A failed reading may move the cursor. -/
def reading (f : σ → Option α × σ) (k : α → Parser σ μ) : Parser σ μ := fun s m =>
  match f s with
  | (some a, s') => k a s' m
  | (none, s') => some (false, s', m)

/-- `copy = *state; if (p) return true; *state = copy;`, where `p` may read the copy. -/
def retry (p : σ → Parser σ μ) : Parser σ μ := fun s m =>
  match p s s m with
  | some (true, s', m') => some (true, s', m')
  | some (false, _, m') => some (false, s, m')
  | none => none

/-! ### Runs of the combinators -/

section Runs
variable {p q r : Parser σ μ} {s s' s₁ : σ} {m m' m₁ : μ} {b : Bool}

theorem branch_of_true (h : p s m = some (true, s₁, m₁)) : branch p q r s m = q s₁ m₁ := by
  simp [branch, h]

theorem branch_of_false (h : p s m = some (false, s₁, m₁)) : branch p q r s m = r s₁ m₁ := by
  simp [branch, h]

theorem retry_of_true {p : σ → Parser σ μ} (h : p s s m = some (true, s₁, m₁)) :
    retry p s m = some (true, s₁, m₁) := by
  simp [retry, h]

theorem retry_of_false {p : σ → Parser σ μ} (h : p s s m = some (false, s₁, m₁)) :
    retry p s m = some (false, s, m₁) := by
  simp [retry, h]

theorem branch_eq_some (h : branch p q r s m = some (b, s', m')) :
    ∃ v s₁ m₁, p s m = some (v, s₁, m₁) ∧ (if v then q else r) s₁ m₁ = some (b, s', m') := by
  unfold branch at h
  split at h
  · rename_i s₁ m₁ hp
    exact ⟨true, s₁, m₁, hp, h⟩
  · rename_i s₁ m₁ hp
    exact ⟨false, s₁, m₁, hp, h⟩
  · cases h

theorem both_eq_true (h : (p &&& q) s m = some (true, s', m')) :
    ∃ s₁ m₁, p s m = some (true, s₁, m₁) ∧ q s₁ m₁ = some (true, s', m') := by
  obtain ⟨v, s₁, m₁, hp, hq⟩ := branch_eq_some h
  cases v
  · simp [ret] at hq
  · exact ⟨s₁, m₁, hp, hq⟩

theorem either_eq_some (h : (p ||| q) s m = some (b, s', m')) :
    (b = true ∧ p s m = some (true, s', m')) ∨
    ∃ s₁ m₁, p s m = some (false, s₁, m₁) ∧ q s₁ m₁ = some (b, s', m') := by
  obtain ⟨v, s₁, m₁, hp, hq⟩ := branch_eq_some h
  cases v
  · exact Or.inr ⟨s₁, m₁, hp, hq⟩
  · cases hq
    exact Or.inl ⟨rfl, hp⟩

theorem act_eq_some {f : σ → μ → σ × μ} (h : act f s m = some (b, s', m')) : b = true ∧ f s m = (s', m') := by
  simp only [act, Option.some.injEq, Prod.mk.injEq] at h
  exact ⟨h.1.symm, h.2⟩

theorem ensure_eq_some {c : σ → Bool} (h : ensure c s m = some (b, s', m')) : b = c s ∧ s' = s ∧ m' = m := by
  simp only [ensure, Option.some.injEq, Prod.mk.injEq] at h
  exact ⟨h.1.symm, h.2.1.symm, h.2.2.symm⟩

theorem lookup_eq_some {find : σ → Option α} {f : α → σ → μ → σ × μ} (h : lookup find f s m = some (b, s', m')) :
    (∃ x, find s = some x ∧ b = true ∧ f x s m = (s', m')) ∨ (find s = none ∧ b = false ∧ s' = s ∧ m' = m) := by
  unfold lookup at h
  cases hx : find s with
  | some x =>
    simp only [hx, Option.some.injEq, Prod.mk.injEq] at h
    exact Or.inl ⟨x, rfl, h.1.symm, h.2⟩
  | none =>
    simp only [hx, Option.some.injEq, Prod.mk.injEq] at h
    exact Or.inr ⟨rfl, h.1.symm, h.2.1.symm, h.2.2.symm⟩

theorem reading_eq_some {f : σ → Option α × σ} {k : α → Parser σ μ} (h : reading f k s m = some (b, s', m')) :
    (∃ x, (f s).1 = some x ∧ k x (f s).2 m = some (b, s', m')) ∨
    ((f s).1 = none ∧ b = false ∧ s' = (f s).2 ∧ m' = m) := by
  unfold reading at h
  cases hx : f s with
  | mk x s₁ =>
    rw [hx] at h
    cases x with
    | some x => exact Or.inl ⟨x, rfl, h⟩
    | none =>
      cases h
      exact Or.inr ⟨rfl, rfl, rfl, rfl⟩

theorem retry_eq_some {p : σ → Parser σ μ} (h : retry p s m = some (b, s', m')) :
    ∃ s₁, p s s m = some (b, s₁, m') ∧ s' = if b then s₁ else s := by
  unfold retry at h
  split at h
  · rename_i hp
    cases h
    exact ⟨_, hp, rfl⟩
  · rename_i s₁ m₁ hp
    cases h
    exact ⟨s₁, hp, rfl⟩
  · cases h

end Runs

/-! ### Cursor movement -/

section Moves
variable (pos : σ → Nat) (lim : Nat)

/-- `p` never moves the cursor back, nor past `lim` from a place before it; when `strict`, every
    acceptance moves it forward. -/
def Moves (strict : Bool) (p : Parser σ μ) : Prop :=
  ∀ ⦃s m b s' m'⦄, p s m = some (b, s', m') →
    pos s ≤ pos s' ∧ (pos s' = pos s ∨ pos s' ≤ lim) ∧ (strict = true → b = true → pos s < pos s')

variable {pos lim} {a b c : Bool} {p q r : Parser σ μ}

theorem Moves.mono (h : Moves pos lim a p) (hb : b ≤ a) : Moves pos lim b p := fun _ _ _ _ _ hp => by
  obtain ⟨h₁, h₂, h₃⟩ := h hp
  exact ⟨h₁, h₂, fun hb' => h₃ (hb hb')⟩

theorem Moves.branch (hp : Moves pos lim a p) (hq : Moves pos lim b q) (hr : Moves pos lim c r) :
    Moves pos lim ((a || b) && c) (branch p q r) := fun s m v s' m' h => by
  obtain ⟨v, s₁, m₁, h₁, h₂⟩ := branch_eq_some h
  have hp := hp h₁
  cases v
  · have := hr h₂
    grind
  · have := hq h₂
    grind

theorem Moves.both (hp : Moves pos lim a p) (hq : Moves pos lim b q) :
    Moves pos lim (a || b) (p &&& q) := fun s m v s' m' h => by
  obtain ⟨v, s₁, m₁, h₁, h₂⟩ := branch_eq_some h
  have hp := hp h₁
  cases v
  · simp only [Bool.false_eq_true, if_false, ret, Option.some.injEq, Prod.mk.injEq] at h₂
    grind
  · have := hq h₂
    grind

theorem Moves.either (hp : Moves pos lim a p) (hq : Moves pos lim b q) :
    Moves pos lim (a && b) (p ||| q) := fun s m v s' m' h => by
  obtain ⟨v, s₁, m₁, h₁, h₂⟩ := branch_eq_some h
  have hp := hp h₁
  cases v
  · have := hq h₂
    grind
  · simp only [if_true, ret, Option.some.injEq, Prod.mk.injEq] at h₂
    grind

theorem Moves.ret (v : Bool) : Moves pos lim (!v) (ret v : Parser σ μ) := fun s m b s' m' h => by
  cases h
  simp

theorem Moves.optional (hp : Moves pos lim a p) : Moves pos lim false (optional p) :=
  (hp.branch (Moves.ret true) (Moves.ret true)).mono (Bool.false_le _)

theorem Moves.retry {p : σ → Parser σ μ} (hp : ∀ s, Moves pos lim a (p s)) : Moves pos lim a (retry p) :=
  fun s m v s' m' h => by
    obtain ⟨s₁, h₁, rfl⟩ := retry_eq_some h
    have := hp s h₁
    cases v <;> simp_all

theorem Moves.act {f : σ → μ → σ × μ} (hf : ∀ s m, pos (f s m).1 = pos s) : Moves pos lim false (act f) :=
  fun s m v s' m' h => by
    obtain ⟨rfl, heq⟩ := act_eq_some h
    have := hf s m
    rw [heq] at this
    simp [this]

theorem Moves.ensure {c : σ → Bool} : Moves pos lim false (ensure c : Parser σ μ) := fun s m v s' m' h => by
  cases h
  simp

theorem Moves.lookup {find : σ → Option α} {f : α → σ → μ → σ × μ}
    (hf : ∀ s m x, find s = some x → pos s < pos (f x s m).1 ∧ pos (f x s m).1 ≤ lim) :
    Moves pos lim true (lookup find f) := fun s m v s' m' h => by
  rcases lookup_eq_some h with ⟨x, hx, rfl, heq⟩ | ⟨-, rfl, rfl, rfl⟩
  · obtain ⟨hlt, hle⟩ := hf s m x hx
    rw [heq] at hlt hle
    exact ⟨Nat.le_of_lt hlt, Or.inr hle, fun _ _ => hlt⟩
  · exact ⟨Nat.le_refl _, Or.inl rfl, fun _ => nofun⟩

theorem Moves.reading {f : σ → Option α × σ} {k : α → Parser σ μ}
    (hf : ∀ s, pos s ≤ pos (f s).2 ∧ (pos (f s).2 = pos s ∨ pos (f s).2 ≤ lim) ∧
      ((f s).1.isSome → pos s < pos (f s).2))
    (hk : ∀ x, Moves pos lim a (k x)) : Moves pos lim true (reading f k) := fun s m v s' m' h => by
  have hf := hf s
  rcases reading_eq_some h with ⟨x, hx, h⟩ | ⟨hx, rfl, rfl, rfl⟩
  · have := hk x h
    simp only [hx, Option.isSome_some, true_implies] at hf
    grind
  · exact ⟨hf.1, hf.2.1, fun _ => nofun⟩

end Moves

/-! ### Failure -/

/-- `p` never rejects. -/
def Accepts (p : Parser σ μ) : Prop := ∀ ⦃s m b s' m'⦄, p s m = some (b, s', m') → b = true

/-- When `p` rejects, it leaves the cursor state `k s`. -/
def Leaves (k : σ → σ) (p : Parser σ μ) : Prop := ∀ ⦃s m s' m'⦄, p s m = some (false, s', m') → s' = k s

/-- `p` accepts where `c` holds, with the cursor state `g s`; it changes nothing elsewhere. -/
def Tests (c : σ → Bool) (g : σ → σ) (p : Parser σ μ) : Prop :=
  ∀ ⦃s m b s' m'⦄, p s m = some (b, s', m') → b = c s ∧ s' = if c s then g s else s

section Failure
variable {p q : Parser σ μ} {k k' g g' : σ → σ} {c c' : σ → Bool}

theorem Accepts.act {f : σ → μ → σ × μ} : Accepts (act f) := fun _ _ _ _ _ h => (act_eq_some h).1

theorem Accepts.ret : Accepts (ret true : Parser σ μ) := fun s m b s' m' h => by
  cases h
  rfl

theorem Accepts.branch {r : Parser σ μ} (hq : Accepts q) (hr : Accepts r) : Accepts (branch p q r) :=
  fun s m b s' m' h => by
    obtain ⟨v, s₁, m₁, -, h₂⟩ := branch_eq_some h
    cases v
    · exact hr h₂
    · exact hq h₂

theorem Accepts.optional : Accepts (optional p) := Accepts.branch .ret .ret

theorem Accepts.both (hp : Accepts p) (hq : Accepts q) : Accepts (p &&& q) := fun s m b s' m' h => by
  obtain ⟨v, s₁, m₁, h₁, h₂⟩ := branch_eq_some h
  rw [hp h₁] at h₂
  exact hq h₂

theorem Accepts.leaves (hp : Accepts p) : Leaves k p := fun s m s' m' h => by
  cases hp h

theorem Leaves.of_eq (hp : Leaves k p) (hk : k = k' := by rfl) : Leaves k' p := hk ▸ hp

theorem Leaves.retry {p : σ → Parser σ μ} : Leaves id (retry p) := fun s m s' m' h => by
  obtain ⟨s₁, -, rfl⟩ := retry_eq_some h
  rfl

theorem Leaves.lookup {find : σ → Option α} {f : α → σ → μ → σ × μ} : Leaves id (lookup find f) :=
  fun s m s' m' h => by
    rcases lookup_eq_some h with ⟨x, -, hb, -⟩ | ⟨-, -, rfl, -⟩
    · cases hb
    · rfl

theorem Leaves.either (hp : Leaves k p) (hq : Leaves k' q) : Leaves (k' ∘ k) (p ||| q) := fun s m s' m' h => by
  obtain ⟨v, s₁, m₁, h₁, h₂⟩ := branch_eq_some h
  cases v
  · rw [Function.comp_apply, ← hp h₁]
    exact hq h₂
  · cases h₂

theorem Leaves.both_accepts (hp : Leaves k p) (hq : Accepts q) : Leaves k (p &&& q) := fun s m s' m' h => by
  obtain ⟨v, s₁, m₁, h₁, h₂⟩ := branch_eq_some h
  cases v
  · cases h₂
    exact hp h₁
  · cases hq h₂

/-- A conjunction of a test and a parser leaves what the parser leaves after the test. -/
theorem Leaves.guarded (hp : Tests c g p) (hq : Leaves k q) :
    Leaves (fun s => if c s then k (g s) else s) (p &&& q) := fun s m s' m' h => by
  obtain ⟨v, s₁, m₁, h₁, h₂⟩ := branch_eq_some h
  obtain ⟨rfl, rfl⟩ := hp h₁
  cases hc : c s
  · simp only [hc, Bool.false_eq_true, if_false, Parser.ret, Option.some.injEq, Prod.mk.injEq] at h₂ ⊢
    exact h₂.2.1.symm
  · simp only [hc, if_true] at h₂ ⊢
    exact hq h₂

theorem Leaves.reading {f : σ → Option α × σ} {r : α → Parser σ μ} (hf : ∀ s, (f s).1 = none → (f s).2 = k s)
    (hr : ∀ x, Accepts (r x)) : Leaves k (reading f r) := fun s m s' m' h => by
  rcases reading_eq_some h with ⟨x, -, h⟩ | ⟨hx, -, rfl, -⟩
  · cases hr x h
  · exact hf s hx

theorem Tests.ensure : Tests c id (ensure c : Parser σ μ) := fun s m b s' m' h => by
  obtain ⟨rfl, rfl, -⟩ := ensure_eq_some h
  simp

theorem Tests.act {f : σ → μ → σ × μ} (hf : ∀ s m, (f s m).1 = g s) : Tests (fun _ => true) g (act f) :=
  fun s m b s' m' h => by
    obtain ⟨rfl, heq⟩ := act_eq_some h
    simp [← hf s m, heq]

theorem Tests.lookup {f : Unit → σ → μ → σ × μ} (hf : ∀ s m, (f () s m).1 = g s) :
    Tests c g (lookup (fun s => if c s then some () else none) f) := fun s m b s' m' h => by
  rcases lookup_eq_some h with ⟨x, hx, rfl, heq⟩ | ⟨hx, rfl, hs, -⟩
  · have hc : c s = true := by
      by_cases hc : c s = true
      · exact hc
      · simp [hc] at hx
    have hg := hf s m
    rw [show f () s m = (s', m') from heq] at hg
    simp [hc, ← hg]
  · have hc : c s = false := by
      by_cases hc : c s = true
      · simp [hc] at hx
      · simpa using hc
    simp [hc, hs]

theorem Tests.both_act {f : σ → μ → σ × μ} (hp : Tests c g p) (hf : ∀ s m, (f s m).1 = g' s) :
    Tests c (g' ∘ g) (p &&& Parser.act f) := fun s m b s' m' h => by
  obtain ⟨v, s₁, m₁, h₁, h₂⟩ := branch_eq_some h
  obtain ⟨rfl, rfl⟩ := hp h₁
  cases hc : c s
  · simp only [hc, Bool.false_eq_true, if_false, Parser.ret, Option.some.injEq, Prod.mk.injEq] at h₂ ⊢
    exact ⟨h₂.1.symm, h₂.2.1.symm⟩
  · simp only [hc, if_true, Function.comp_apply] at h₂ ⊢
    obtain ⟨rfl, rfl⟩ := Tests.act hf h₂
    exact ⟨rfl, rfl⟩

end Failure

end Backtrack.Parser
