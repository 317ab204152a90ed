import Glog.Backtrack.Parser

/-! # Runs on abstract configurations

A configuration `c : κ` stands for the states that `R c` relates to it. `Steps R p c b c'` says that from
every state of `c` the parser answers `b` in a state of `c'`. One rule per combinator follows a run forwards,
through accepted and rejected alternatives. -/

namespace Backtrack.Parser
variable {σ μ κ α : Type} {R : κ → σ → μ → Prop} {p q r : Parser σ μ} {c c' c₁ c₂ : κ} {b v : Bool}

/-- From the states of `c` the parser `p` answers `b` and ends in the states of `c'`. -/
def Steps (R : κ → σ → μ → Prop) (p : Parser σ μ) (c : κ) (b : Bool) (c' : κ) : Prop :=
  ∀ ⦃s m⦄, R c s m → ∃ s' m', p s m = some (b, s', m') ∧ R c' s' m'

namespace Steps

theorem ret (v : Bool) : Steps R (.ret v) c v c := fun s m hs => ⟨s, m, rfl, hs⟩

theorem branch_true (hp : Steps R p c true c₁) (hq : Steps R q c₁ b c₂) : Steps R (.branch p q r) c b c₂ :=
  fun s m hs => by
    obtain ⟨s₁, m₁, hrun, hs₁⟩ := hp hs
    obtain ⟨s₂, m₂, hrest, hs₂⟩ := hq hs₁
    exact ⟨s₂, m₂, (branch_of_true hrun).trans hrest, hs₂⟩

theorem branch_false (hp : Steps R p c false c₁) (hr : Steps R r c₁ b c₂) : Steps R (.branch p q r) c b c₂ :=
  fun s m hs => by
    obtain ⟨s₁, m₁, hrun, hs₁⟩ := hp hs
    obtain ⟨s₂, m₂, hrest, hs₂⟩ := hr hs₁
    exact ⟨s₂, m₂, (branch_of_false hrun).trans hrest, hs₂⟩

theorem both (hp : Steps R p c true c₁) (hq : Steps R q c₁ b c₂) : Steps R (p &&& q) c b c₂ := hp.branch_true hq

theorem both_false (hp : Steps R p c false c₁) : Steps R (p &&& q) c false c₁ := hp.branch_false (ret false)

theorem either_true (hp : Steps R p c true c₁) : Steps R (p ||| q) c true c₁ := hp.branch_true (ret true)

theorem either (hp : Steps R p c false c₁) (hq : Steps R q c₁ b c₂) : Steps R (p ||| q) c b c₂ := hp.branch_false hq

theorem optional (hp : Steps R p c b c₁) : Steps R (.optional p) c true c₁ := by
  cases b
  · exact hp.branch_false (ret true)
  · exact hp.branch_true (ret true)

theorem act {f : σ → μ → σ × μ} (h : ∀ s m, R c s m → R c' (f s m).1 (f s m).2) : Steps R (.act f) c true c' :=
  fun s m hs => ⟨_, _, rfl, h s m hs⟩

theorem ensure {t : σ → Bool} (h : ∀ s m, R c s m → t s = v) : Steps R (.ensure t) c v c := fun s m hs => by
  refine ⟨s, m, ?_, hs⟩
  rw [Parser.ensure, h s m hs]

theorem lookup {find : σ → Option α} {f : α → σ → μ → σ × μ} {x : α} (hfind : ∀ s m, R c s m → find s = some x)
    (h : ∀ s m, R c s m → R c' (f x s m).1 (f x s m).2) : Steps R (.lookup find f) c true c' := fun s m hs => by
  refine ⟨_, _, ?_, h s m hs⟩
  rw [Parser.lookup, hfind s m hs]

theorem lookup_none {find : σ → Option α} {f : α → σ → μ → σ × μ} (h : ∀ s m, R c s m → find s = none) :
    Steps R (.lookup find f) c false c := fun s m hs => by
  refine ⟨s, m, ?_, hs⟩
  rw [Parser.lookup, h s m hs]

theorem reading {f : σ → Option α × σ} {k : α → Parser σ μ} {x : α} (hread : ∀ s m, R c s m → (f s).1 = some x)
    (hstate : ∀ s m, R c s m → R c₁ (f s).2 m) (hk : Steps R (k x) c₁ b c₂) : Steps R (.reading f k) c b c₂ :=
  fun s m hs => by
    obtain ⟨s₂, m₂, hrun, hs₂⟩ := hk (hstate s m hs)
    refine ⟨s₂, m₂, ?_, hs₂⟩
    have hx := hread s m hs
    unfold Parser.reading
    rw [show f s = ((f s).1, (f s).2) from rfl, hx]
    exact hrun

theorem retry {p : σ → Parser σ μ} (h : ∀ s m, R c s m → Steps R (p s) c true c') : Steps R (.retry p) c true c' :=
  fun s m hs => by
    obtain ⟨s', m', hrun, hs'⟩ := h s m hs hs
    exact ⟨s', m', retry_of_true hrun, hs'⟩

/-- A rejected alternative puts the cursor state back; what it did to the memory stays. -/
theorem retry_false {p : σ → Parser σ μ} (h : ∀ s m, R c s m → Steps R (p s) c false c₁)
    (hback : ∀ s m s₁ m₁, R c s m → R c₁ s₁ m₁ → R c' s m₁) : Steps R (.retry p) c false c' := fun s m hs => by
  obtain ⟨s₁, m₁, hrun, hs₁⟩ := h s m hs hs
  exact ⟨s, m₁, retry_of_false hrun, hback s m s₁ m₁ hs hs₁⟩

end Steps

end Backtrack.Parser
