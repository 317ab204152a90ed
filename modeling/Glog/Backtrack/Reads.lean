import Mathlib.Computability.Language
import Mathlib.Order.CompletePartialOrder
import Glog.Backtrack.Parser

/-! # Languages of backtracking parsers

`Reads X keep p` says that the input which an acceptance of `p` moves over is a word of `X`. The rules
follow the combinators, so that a parser reads the regular expression over the languages of its calls that
its own text spells out. `ok` is a condition on the memory under which this is to hold; it is inherited by
earlier memories. -/

namespace Backtrack.Parser
variable {σ μ α β : Type}

/-- The language of words of `X` and the empty word. -/
def opt (X : Language α) : Language α := 1 + X

theorem nil_mem_opt {X : Language α} : [] ∈ opt X := Or.inl rfl

theorem mem_opt {X : Language α} {w : List α} (h : w ∈ X) : w ∈ opt X := Or.inr h

theorem le_opt (X : Language α) : X ≤ opt X := le_add_of_nonneg_left bot_le

theorem one_le_opt (X : Language α) : 1 ≤ opt X := le_add_of_nonneg_right bot_le

theorem extract_append (input : List α) {i j k : Nat} (hij : i ≤ j) (hjk : j ≤ k) :
    input.extract i j ++ input.extract j k = input.extract i k := by
  rw [List.extract_eq_take_drop, List.extract_eq_take_drop, List.extract_eq_take_drop]
  have hdrop : input.drop j = (input.drop i).drop (j - i) := by
    rw [List.drop_drop]
    congr 1
    omega
  have hlen : k - i = (j - i) + (k - j) := by omega
  rw [hdrop, hlen, List.take_add]

theorem extract_self (input : List α) (i : Nat) : input.extract i i = [] := by
  simp [List.extract_eq_take_drop]

theorem eq_of_extract_nil {input : List α} {i j : Nat} (hij : i ≤ j) (hj : j < input.length)
    (h : input.extract i j = []) : j = i := by
  have hlen := congrArg List.length h
  rw [List.extract_eq_take_drop, List.length_take, List.length_drop, List.length_nil] at hlen
  omega

section Reads
variable (input : List α) (pos : σ → Nat) (ok : μ → Prop)

/-- When the memory after a run of `p` is `ok`, an acceptance moves over a word of `X`; when `keep`, a
    rejection leaves the cursor where it was. -/
def Reads (X : Language α) (keep : Bool) (p : Parser σ μ) : Prop :=
  ∀ ⦃s m b s' m'⦄, p s m = some (b, s', m') → ok m' → ok m ∧ pos s ≤ pos s' ∧
    (b = true → input.extract (pos s) (pos s') ∈ X) ∧ (b = false → keep = true → pos s' = pos s)

/-- `p` does not move the cursor. -/
def Stays (p : Parser σ μ) : Prop := ∀ ⦃s m b s' m'⦄, p s m = some (b, s', m') → pos s' = pos s

variable {input pos ok} {X Y Z : Language α} {k k' : Bool} {p q r : Parser σ μ}

theorem Stays.ensure {c : σ → Bool} : Stays (μ := μ) pos (ensure c) := fun s m b s' m' h => by
  cases h
  rfl

theorem Stays.act {f : σ → μ → σ × μ} (hpos : ∀ s m, pos (f s m).1 = pos s) : Stays pos (act f) :=
  fun s m b s' m' h => by
    rw [← hpos s m, (act_eq_some h).2]

theorem Stays.both (hp : Stays pos p) (hq : Stays pos q) : Stays pos (p &&& q) := fun s m b s' m' h => by
  obtain ⟨v, s₁, m₁, h₁, h₂⟩ := branch_eq_some h
  cases v
  · cases h₂
    exact hp h₁
  · exact (hq h₂).trans (hp h₁)

namespace Reads

theorem mono (hp : Reads input pos ok X k p) (hX : X ≤ Y) (hk : k' ≤ k := by decide) : Reads input pos ok Y k' p :=
  fun s m b s' m' h hok => by
    obtain ⟨h₁, h₂, h₃, h₄⟩ := hp h hok
    exact ⟨h₁, h₂, fun hb => hX (h₃ hb), fun hb hk' => h₄ hb (hk hk')⟩

theorem ret (b : Bool) : Reads input pos ok 1 true (ret b) := fun s m b s' m' h hok => by
  cases h
  exact ⟨hok, le_rfl, fun _ => extract_self input (pos s), fun _ _ => rfl⟩

theorem act {f : σ → μ → σ × μ} (hpos : ∀ s m, pos (f s m).1 = pos s) (hok : ∀ s m, ok (f s m).2 → ok m) :
    Reads input pos ok 1 true (act f) := fun s m b s' m' h hm => by
  obtain ⟨rfl, heq⟩ := act_eq_some h
  have hcur := hpos s m
  have hold := hok s m
  rw [heq] at hcur hold
  refine ⟨hold hm, hcur.ge, fun _ => ?_, nofun⟩
  rw [hcur]
  exact extract_self input (pos s)

theorem ensure {c : σ → Bool} : Reads input pos ok 1 true (ensure c) := fun s m b s' m' h hok => by
  cases h
  exact ⟨hok, le_rfl, fun _ => extract_self input (pos s), fun _ _ => rfl⟩

/-- What follows a test that fails is not reached. -/
theorem never : Reads input pos ok 0 true (Parser.ensure (fun _ => false) &&& q) := fun s m b s' m' h hok => by
  cases h
  exact ⟨hok, le_rfl, nofun, fun _ _ => rfl⟩

theorem lookup {find : σ → Option β} {f : β → σ → μ → σ × μ}
    (hf : ∀ s m x, find s = some x → pos s ≤ pos (f x s m).1 ∧ input.extract (pos s) (pos (f x s m).1) ∈ X)
    (hok : ∀ s m x, ok (f x s m).2 → ok m) : Reads input pos ok X true (lookup find f) :=
  fun s m b s' m' h hm => by
    rcases lookup_eq_some h with ⟨x, hx, rfl, heq⟩ | ⟨-, rfl, rfl, rfl⟩
    · have hword := hf s m x hx
      have hold := hok s m x
      rw [heq] at hword hold
      exact ⟨hold hm, hword.1, fun _ => hword.2, nofun⟩
    · exact ⟨hm, le_rfl, nofun, fun _ _ => rfl⟩

theorem branch (hp : Reads input pos ok X true p) (hq : Reads input pos ok Y k q) (hr : Reads input pos ok Z k' r) :
    Reads input pos ok (X * Y + Z) false (branch p q r) := fun s m b s' m' h hm => by
  obtain ⟨v, s₁, m₁, h₁, h₂⟩ := branch_eq_some h
  cases v
  · obtain ⟨hm₁, hle, hZ, -⟩ := hr h₂ hm
    obtain ⟨hm₀, -, -, hkeep⟩ := hp h₁ hm₁
    rw [hkeep rfl rfl] at hle hZ
    exact ⟨hm₀, hle, fun hb => Or.inr (hZ hb), nofun⟩
  · obtain ⟨hm₁, hle, hY, -⟩ := hq h₂ hm
    obtain ⟨hm₀, hle₁, hX, -⟩ := hp h₁ hm₁
    refine ⟨hm₀, hle₁.trans hle, fun hb => Or.inl ?_, nofun⟩
    rw [← extract_append input hle₁ hle]
    exact Language.append_mem_mul (hX rfl) (hY hb)

theorem both (hp : Reads input pos ok X k p) (hq : Reads input pos ok Y k' q) :
    Reads input pos ok (X * Y) false (p &&& q) := fun s m b s' m' h hm => by
  obtain ⟨v, s₁, m₁, h₁, h₂⟩ := branch_eq_some h
  cases v
  · cases h₂
    obtain ⟨hm₀, hle, -⟩ := hp h₁ hm
    exact ⟨hm₀, hle, nofun, nofun⟩
  · obtain ⟨hm₁, hle, hY, -⟩ := hq h₂ hm
    obtain ⟨hm₀, hle₁, hX, -⟩ := hp h₁ hm₁
    refine ⟨hm₀, hle₁.trans hle, fun hb => ?_, nofun⟩
    rw [← extract_append input hle₁ hle]
    exact Language.append_mem_mul (hX rfl) (hY hb)

/-- A conjunction whose second part never rejects keeps the cursor as its first part does. -/
theorem both_accepts (hp : Reads input pos ok X k p) (hq : Reads input pos ok Y k' q) (hacc : Accepts q) :
    Reads input pos ok (X * Y) k (p &&& q) := fun s m b s' m' h hm => by
  obtain ⟨hm₀, hle, hword, -⟩ := hp.both hq h hm
  refine ⟨hm₀, hle, hword, fun hb hk => ?_⟩
  subst hb
  obtain ⟨v, s₁, m₁, h₁, h₂⟩ := branch_eq_some h
  cases v
  · cases h₂
    exact (hp h₁ hm).2.2.2 rfl hk
  · cases hacc h₂

/-- A change of other things after a parser. -/
theorem both_act {f : σ → μ → σ × μ} (hp : Reads input pos ok X k p) (hpos : ∀ s m, pos (f s m).1 = pos s)
    (hok : ∀ s m, ok (f s m).2 → ok m) : Reads input pos ok X k (p &&& Parser.act f) := by
  have h := hp.both_accepts (act hpos hok) Accepts.act
  rwa [mul_one] at h

/-- So does a conjunction whose first part does not move it. -/
theorem both_stays (hp : Reads input pos ok X true p) (hstays : Stays pos p) (hq : Reads input pos ok Y k q) :
    Reads input pos ok Y k (p &&& q) := fun s m b s' m' h hm => by
  obtain ⟨v, s₁, m₁, h₁, h₂⟩ := branch_eq_some h
  cases v
  · cases h₂
    obtain ⟨hm₀, hle, -, hkeep⟩ := hp h₁ hm
    exact ⟨hm₀, hle, nofun, fun _ _ => hkeep rfl rfl⟩
  · obtain ⟨hm₁, hle, hY, hkeep⟩ := hq h₂ hm
    obtain ⟨hm₀, -⟩ := hp h₁ hm₁
    rw [hstays h₁] at hle hY hkeep
    exact ⟨hm₀, hle, hY, hkeep⟩

theorem either (hp : Reads input pos ok X true p) (hq : Reads input pos ok Y k q) :
    Reads input pos ok (X + Y) k (p ||| q) := fun s m b s' m' h hm => by
  obtain ⟨v, s₁, m₁, h₁, h₂⟩ := branch_eq_some h
  cases v
  · obtain ⟨hm₁, hle, hY, hkeep⟩ := hq h₂ hm
    obtain ⟨hm₀, -, -, hkeep₁⟩ := hp h₁ hm₁
    rw [hkeep₁ rfl rfl] at hle hY hkeep
    exact ⟨hm₀, hle, fun hb => Or.inr (hY hb), hkeep⟩
  · cases h₂
    obtain ⟨hm₀, hle, hX, -⟩ := hp h₁ hm
    exact ⟨hm₀, hle, fun hb => Or.inl (hX rfl), nofun⟩

theorem optional (hp : Reads input pos ok X true p) : Reads input pos ok (opt X) true (optional p) :=
  fun s m b s' m' h hm => by
    obtain ⟨v, s₁, m₁, h₁, h₂⟩ := branch_eq_some h
    obtain ⟨hm₀, hle, hX, hkeep⟩ := hp h₁ (by cases v <;> cases h₂ <;> exact hm)
    cases v
    · cases h₂
      refine ⟨hm₀, hle, fun _ => ?_, nofun⟩
      rw [hkeep rfl rfl, extract_self]
      exact nil_mem_opt
    · cases h₂
      exact ⟨hm₀, hle, fun _ => mem_opt (hX rfl), nofun⟩

theorem retry {p : σ → Parser σ μ} (hp : ∀ s, Reads input pos ok X k (p s)) :
    Reads input pos ok X true (retry p) := fun s m b s' m' h hm => by
  obtain ⟨s₁, h₁, rfl⟩ := retry_eq_some h
  obtain ⟨hm₀, hle, hX, -⟩ := hp s h₁ hm
  cases b
  · exact ⟨hm₀, le_rfl, nofun, fun _ _ => rfl⟩
  · exact ⟨hm₀, hle, fun _ => hX rfl, nofun⟩

end Reads
end Reads

end Backtrack.Parser
