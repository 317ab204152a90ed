import Mathlib.Order.Defs.Unbundled
import Glog.Backtrack.Fix

/-! # Relations between the ends of a run

`Relates R p`: from where a run of `p` starts to where it ends, accepting or rejecting, `R` holds. For a preorder the rules
follow the combinators. What a retry does is told by phases, which say how far the run is from its start: a rejection puts
the cursor state back, and only what it did to the memory stays. -/

namespace Backtrack.Parser
variable {σ μ κ α F : Type} {R : σ × μ → σ × μ → Prop} {p q r : Parser σ μ}

def Relates (R : σ × μ → σ × μ → Prop) (p : Parser σ μ) : Prop :=
  ∀ ⦃s m b s' m'⦄, p s m = some (b, s', m') → R (s, m) (s', m')

/-- From the phase `c` an acceptance leads to the phase `c'`, and a rejection to a memory of `left`. -/
def Leads (phase : κ → σ → μ → Prop) (left : μ → Prop) (p : Parser σ μ) (c c' : κ) : Prop :=
  ∀ ⦃s m b s' m'⦄, p s m = some (b, s', m') → phase c s m → if b then phase c' s' m' else left m'

namespace Relates

theorem mono {S : σ × μ → σ × μ → Prop} (hp : Relates R p) (h : ∀ a b, R a b → S a b) : Relates S p :=
  fun _ _ _ _ _ hrun => h _ _ (hp hrun)

theorem act {f : σ → μ → σ × μ} (h : ∀ s m, R (s, m) (f s m)) : Relates R (Parser.act f) := fun s m b s' m' hrun => by
  obtain ⟨-, heq⟩ := act_eq_some hrun
  exact heq ▸ h s m

section
variable [IsPreorder (σ × μ) R]

theorem ret (b : Bool) : Relates R (.ret b) := fun s m b' s' m' hrun => by
  cases hrun
  exact refl_of R (s, m)

theorem ensure {c : σ → Bool} : Relates R (.ensure c) := fun s m b s' m' hrun => by
  obtain ⟨-, rfl, rfl⟩ := ensure_eq_some hrun
  exact refl_of R (s', m')

theorem lookup {find : σ → Option α} {f : α → σ → μ → σ × μ} (h : ∀ x s m, R (s, m) (f x s m)) :
    Relates R (.lookup find f) :=
  fun s m b s' m' hrun => by
    rcases lookup_eq_some hrun with ⟨x, -, -, heq⟩ | ⟨-, -, rfl, rfl⟩
    · exact heq ▸ h x s m
    · exact refl_of R (s', m')

theorem reading {f : σ → Option α × σ} {k : α → Parser σ μ} (hf : ∀ s m, R (s, m) ((f s).2, m))
    (hk : ∀ x, Relates R (k x)) :
    Relates R (.reading f k) := fun s m b s' m' hrun => by
  rcases reading_eq_some hrun with ⟨x, -, hrest⟩ | ⟨-, -, rfl, rfl⟩
  · exact trans_of R (hf s m) (hk x hrest)
  · exact hf s m'

theorem branch (hp : Relates R p) (hq : Relates R q) (hr : Relates R r) : Relates R (.branch p q r) :=
  fun s m b s' m' hrun => by
  obtain ⟨v, s₁, m₁, hfirst, hrest⟩ := branch_eq_some hrun
  refine trans_of R (hp hfirst) ?_
  cases v
  · exact hr hrest
  · exact hq hrest

theorem both (hp : Relates R p) (hq : Relates R q) : Relates R (p &&& q) := hp.branch hq (ret false)

theorem either (hp : Relates R p) (hq : Relates R q) : Relates R (p ||| q) := hp.branch (ret true) hq

theorem optional (hp : Relates R p) : Relates R (.optional p) := hp.branch (ret true) (ret true)

end

/-- A retry that goes through phases. -/
theorem retry {p : σ → Parser σ μ} {phase : σ × μ → κ → σ → μ → Prop} {left : σ × μ → μ → Prop} {c c' : κ}
    (hstart : ∀ s m, phase (s, m) c s m) (hp : ∀ s m, Leads (phase (s, m)) (left (s, m)) (p s) c c')
    (haccept : ∀ a s m, phase a c' s m → R a (s, m)) (hreject : ∀ s m m', left (s, m) m' → R (s, m) (s, m')) :
    Relates R (.retry p) := fun s m b s' m' hrun => by
  obtain ⟨s₁, hbody, rfl⟩ := retry_eq_some hrun
  have hend := hp s m hbody (hstart s m)
  cases b
  · exact hreject s m m' hend
  · exact haccept (s, m) s₁ m' hend

/-- A retry whose body is related, where putting the cursor state back is. -/
theorem attempt {p : σ → Parser σ μ} (hback : ∀ s m a, R (s, m) a → R (s, m) (s, a.2)) (hp : ∀ s, Relates R (p s)) :
    Relates R (.retry p) := fun s m b s' m' hrun => by
  obtain ⟨s₁, hbody, rfl⟩ := retry_eq_some hrun
  have hend := hp s hbody
  cases b
  · exact hback s m _ hend
  · exact hend

/-- A family is related if its bodies are, where its calls are. -/
theorem run {R : F → σ × μ → σ × μ → Prop} {note : F → σ → μ → μ} {body : (F → Parser σ μ) → F → Parser σ μ} {pos : σ → Nat}
    {lim width : Nat} {rank : F → Nat} (hnote : ∀ f s m a, R f (s, note f s m) a → R f (s, m) a)
    (hbody : ∀ call : F → Parser σ μ, (∀ g, Relates (R g) (call g)) → ∀ f, Relates (R f) (body call f)) (f : F) :
    Relates (R f) (Backtrack.run note body pos lim rank width f) := fun s m b s' m' hrun => by
  refine run_induct (P := fun f s m _ s' m' => R f (s, m) (s', m')) (fun call hcall f s m b s' m' h => ?_) hrun
  exact hnote f s m _ (hbody call (fun g _ _ _ _ _ => hcall g _ _ _ _ _) f h)

end Relates

namespace Leads
variable {phase : κ → σ → μ → Prop} {left : μ → Prop} {c c₁ c₂ : κ}

theorem act {f : σ → μ → σ × μ} (h : ∀ s m, phase c s m → phase c₁ (f s m).1 (f s m).2) :
    Leads phase left (Parser.act f) c c₁ :=
  fun s m b s' m' hrun hs => by
    obtain ⟨rfl, heq⟩ := act_eq_some hrun
    have hnext := h s m hs
    rw [heq] at hnext
    exact hnext

theorem both (hp : Leads phase left p c c₁) (hq : Leads phase left q c₁ c₂) : Leads phase left (p &&& q) c c₂ :=
  fun s m b s' m' hrun hs => by
    obtain ⟨v, s₁, m₁, hfirst, hrest⟩ := branch_eq_some hrun
    have hnext := hp hfirst hs
    cases v
    · cases hrest
      exact hnext
    · exact hq hrest hnext

end Leads

end Backtrack.Parser
