import Glog.Backtrack.Parser

/-! # Mutually recursive parsers

A family of mutually recursive parsers is a `body` that says what each of them does with the calls it
makes. `eval` ties the knot with fuel. When every call either follows some progress of the cursor or
goes to a parser of smaller rank (`Ranked`), enough fuel always suffices and more of it changes
nothing, so the family has a total run (`run`) that satisfies the recursive equations (`run_eq`). -/

namespace Backtrack
open Backtrack.Parser
variable {σ μ F : Type}

/-- The family `body` with `fuel` levels of calls; `note` records each call in the memory. -/
def eval (note : F → σ → μ → μ) (body : (F → Parser σ μ) → F → Parser σ μ) : Nat → F → Parser σ μ
  | 0, _ => fun _ _ => none
  | fuel + 1, f => fun s m => body (eval note body fuel) f s (note f s m)

/-! ### Two runs of the same family -/

/-- Cursors that are of interest before (`false`) and after (`true`) some progress; closed under the
    moves of parsers. -/
structure Domain (lim : Nat) where
  Mem : Bool → Nat → Prop
  step : ∀ {far strict : Bool} {x y : Nat}, Mem far x → x ≤ y → (y = x ∨ y ≤ lim) →
    (strict = true → x < y) → Mem (far || strict) y

/-- `p` moves the cursor like `Moves`, and from the cursors of the domain `p` and `q` answer alike. -/
structure Steady {lim : Nat} (pos : σ → Nat) (D : Domain lim) (far strict : Bool) (p q : Parser σ μ) : Prop where
  moves : Moves pos lim strict p
  agree : ∀ s m, D.Mem far (pos s) → p s m = q s m ∧ (p s m).isSome

namespace Steady
variable {lim : Nat} {pos : σ → Nat} {D : Domain lim} {far a b c : Bool} {p p' q q' r r' : Parser σ μ}

theorem branch_agree (hp : Steady pos D far a p p')
    (hq : ∀ s m, D.Mem (far || a) (pos s) → q s m = q' s m ∧ (q s m).isSome)
    (hr : ∀ s m, D.Mem far (pos s) → r s m = r' s m ∧ (r s m).isSome) (s : σ) (m : μ) (hs : D.Mem far (pos s)) :
    branch p q r s m = branch p' q' r' s m ∧ (branch p q r s m).isSome := by
  obtain ⟨heq, hsome⟩ := hp.agree s m hs
  obtain ⟨⟨v, s₁, m₁⟩, h₁⟩ := Option.isSome_iff_exists.mp hsome
  obtain ⟨hle, hlim, hlt⟩ := hp.moves h₁
  rw [h₁] at heq
  cases v
  · rw [branch_of_false h₁, branch_of_false heq.symm]
    have hmem : D.Mem (far || false) (pos s₁) := D.step hs hle hlim nofun
    rw [Bool.or_false] at hmem
    exact hr s₁ m₁ hmem
  · rw [branch_of_true h₁, branch_of_true heq.symm]
    exact hq s₁ m₁ (D.step hs hle hlim fun ha => hlt ha rfl)

theorem of_moves (hm : Moves pos lim a p) (h : ∀ s m, (p s m).isSome) : Steady pos D far a p p :=
  ⟨hm, fun s m _ => ⟨rfl, h s m⟩⟩

theorem mono (h : Steady pos D far a p p') (hb : b ≤ a := by decide) : Steady pos D far b p p' :=
  ⟨h.moves.mono hb, h.agree⟩

theorem ret (v : Bool) : Steady pos D far (!v) (ret v : Parser σ μ) (Parser.ret v) :=
  of_moves (Moves.ret v) fun _ _ => rfl

theorem act {f : σ → μ → σ × μ} (h : Moves pos lim a (Parser.act f)) :
    Steady pos D far a (Parser.act f) (Parser.act f) :=
  of_moves h fun _ _ => rfl

theorem ensure {c : σ → Bool} : Steady pos D far false (ensure c : Parser σ μ) (Parser.ensure c) :=
  of_moves Moves.ensure fun _ _ => rfl

theorem lookup {α : Type} {find : σ → Option α} {f : α → σ → μ → σ × μ} (h : Moves pos lim a (lookup find f)) :
    Steady pos D far a (Parser.lookup find f) (Parser.lookup find f) := of_moves h fun s m => by
  unfold Parser.lookup
  split <;> rfl

theorem branch (hp : Steady pos D far a p p') (hq : Steady pos D (far || a) b q q')
    (hr : Steady pos D far c r r') : Steady pos D far ((a || b) && c) (branch p q r) (Parser.branch p' q' r') :=
  ⟨hp.moves.branch hq.moves hr.moves, hp.branch_agree hq.agree hr.agree⟩

theorem both (hp : Steady pos D far a p p') (hq : Steady pos D (far || a) b q q') :
    Steady pos D far (a || b) (p &&& q) (p' &&& q') :=
  ⟨hp.moves.both hq.moves, hp.branch_agree hq.agree fun _ _ _ => ⟨rfl, rfl⟩⟩

theorem either (hp : Steady pos D far a p p') (hq : Steady pos D far b q q') :
    Steady pos D far (a && b) (p ||| q) (p' ||| q') :=
  ⟨hp.moves.either hq.moves, hp.branch_agree (fun _ _ _ => ⟨rfl, rfl⟩) hq.agree⟩

theorem optional (hp : Steady pos D far a p p') : Steady pos D far false (optional p) (Parser.optional p') :=
  ⟨hp.moves.optional, hp.branch_agree (fun _ _ _ => ⟨rfl, rfl⟩) fun _ _ _ => ⟨rfl, rfl⟩⟩

theorem retry {p p' : σ → Parser σ μ} (hp : ∀ s, Steady pos D far a (p s) (p' s)) :
    Steady pos D far a (retry p) (Parser.retry p') where
  moves := Moves.retry fun s => (hp s).moves
  agree s m hs := by
    obtain ⟨heq, hsome⟩ := (hp s).agree s m hs
    obtain ⟨⟨v, s₁, m₁⟩, h₁⟩ := Option.isSome_iff_exists.mp hsome
    rw [h₁] at heq
    cases v
    · rw [retry_of_false h₁, retry_of_false heq.symm]
      exact ⟨rfl, rfl⟩
    · rw [retry_of_true h₁, retry_of_true heq.symm]
      exact ⟨rfl, rfl⟩

theorem reading {α : Type} {f : σ → Option α × σ} {k k' : α → Parser σ μ}
    (hf : ∀ s, pos s ≤ pos (f s).2 ∧ (pos (f s).2 = pos s ∨ pos (f s).2 ≤ lim) ∧
      ((f s).1.isSome → pos s < pos (f s).2))
    (hk : ∀ x, Steady pos D true a (k x) (k' x)) : Steady pos D far true (reading f k) (Parser.reading f k') where
  moves := Moves.reading hf fun x => (hk x).moves
  agree s m hs := by
    obtain ⟨hle, hlim, hlt⟩ := hf s
    unfold Parser.reading
    split
    · rename_i x s₁ hx
      simp only [hx, Option.isSome_some, true_implies] at hle hlim hlt
      have hmem : D.Mem (far || true) (pos s₁) := D.step hs hle hlim fun _ => hlt
      rw [Bool.or_true] at hmem
      exact (hk x).agree s₁ m hmem
    · exact ⟨rfl, rfl⟩

end Steady

/-! ### Total runs -/

/-- The discipline of calls under which a family of parsers terminates. `strict` names the parsers whose
    acceptance moves the cursor forward, and a call made before any progress goes down in rank. -/
structure Ranked (pos : σ → Nat) (lim : Nat) (strict : F → Bool) (rank : F → Nat) (width : Nat)
    (body : (F → Parser σ μ) → F → Parser σ μ) : Prop where
  rank_lt : ∀ f, rank f < width
  steady : ∀ {call call' : F → Parser σ μ} {D : Domain lim} (f : F),
    (∀ {far} g, (far || decide (rank g < rank f)) = true → Steady pos D far (strict g) (call g) (call' g)) →
      Steady pos D false (strict f) (body call f) (body call' f)

/-- The cursors that a parser entered at `c` can be at: `c` itself, unless it moved, or a later one up to
    `lim`. -/
def within (lim c : Nat) : Domain lim where
  Mem far x := (far = false ∧ x = c) ∨ (c < x ∧ x ≤ lim)
  step := by grind

/-- The fuel that a parser of rank `r` needs from cursor `x`. -/
def cost (lim width r x : Nat) : Nat := width * (lim + 1 - x) + r

/-- The total run of a family: `eval` with the fuel that it needs. -/
def run (note : F → σ → μ → μ) (body : (F → Parser σ μ) → F → Parser σ μ) (pos : σ → Nat) (lim : Nat)
    (rank : F → Nat) (width : Nat) (f : F) : Parser σ μ := fun s m =>
  eval note body (cost lim width (rank f) (pos s) + 1) f s m

namespace Ranked
variable {pos : σ → Nat} {lim : Nat} {strict : F → Bool} {rank : F → Nat} {width : Nat}
  {body : (F → Parser σ μ) → F → Parser σ μ} {note : F → σ → μ → μ}

theorem eval_moves (h : Ranked pos lim strict rank width body) :
    ∀ n f, Moves pos lim (strict f) (eval note body n f)
  | 0, _ => fun _ _ _ _ _ hp => by cases hp
  | n + 1, f => fun _ _ _ _ _ hp =>
    -- The empty domain asks for nothing but the moves.
    have hcall : ∀ {far} g, Steady pos ⟨fun _ _ => False, fun hm => hm.elim⟩ far (strict g)
        (eval note body n g) (eval note body n g) := fun g => ⟨h.eval_moves n g, fun _ _ hm => hm.elim⟩
    (h.steady f fun g _ => hcall g).moves hp

/-- The cost of a call within reach is below the cost of its caller. -/
theorem cost_lt (h : Ranked pos lim strict rank width body) {far : Bool} {c x : Nat} {f g : F}
    (hx : (within lim c).Mem far x) (hg : (far || decide (rank g < rank f)) = true) :
    cost lim width (rank g) x < cost lim width (rank f) c := by
  unfold cost
  rcases hx with ⟨hfar, rfl⟩ | ⟨hlt, hle⟩
  · have hg : rank g < rank f := by simpa [hfar] using hg
    omega
  · have hw := h.rank_lt g
    have hmul : width * (lim + 1 - x) + width ≤ width * (lim + 1 - c) := by
      rw [← Nat.mul_succ]
      exact Nat.mul_le_mul_left _ (by omega)
    omega

/-- Above its cost a parser answers, and the fuel does not matter. -/
theorem eval_agree (h : Ranked pos lim strict rank width body) : ∀ {n n' : Nat} {f : F} {s : σ} {m : μ},
    cost lim width (rank f) (pos s) < n → cost lim width (rank f) (pos s) < n' →
      eval note body n f s m = eval note body n' f s m ∧ (eval note body n f s m).isSome
  | 0, _, _, _, _, hn, _ => by omega
  | _ + 1, 0, _, _, _, _, hn' => by omega
  | n + 1, n' + 1, f, s, m, hn, hn' => by
    refine (h.steady (D := within lim (pos s)) f fun g hg => ⟨h.eval_moves n g, fun s₁ m₁ hs₁ => ?_⟩).agree s _
      (Or.inl ⟨rfl, rfl⟩)
    have hlt := h.cost_lt hs₁ hg
    exact h.eval_agree (by omega) (by omega)

theorem eval_eq_run (h : Ranked pos lim strict rank width body) {n : Nat} {f : F} {s : σ} {m : μ}
    (hn : cost lim width (rank f) (pos s) < n) :
    eval note body n f s m = run note body pos lim rank width f s m :=
  (h.eval_agree hn (Nat.lt_succ_self _)).1

theorem run_isSome (h : Ranked pos lim strict rank width body) (f : F) (s : σ) (m : μ) :
    (run note body pos lim rank width f s m).isSome :=
  (h.eval_agree (Nat.lt_succ_self _) (Nat.lt_succ_self _)).2

/-- The recursive equations. -/
theorem run_eq (h : Ranked pos lim strict rank width body) (f : F) (s : σ) (m : μ) :
    run note body pos lim rank width f s m = body (run note body pos lim rank width) f s (note f s m) := by
  refine ((h.steady (D := within lim (pos s)) f fun g hg =>
    ⟨h.eval_moves _ g, fun s₁ m₁ hs₁ => ?_⟩).agree s _ (Or.inl ⟨rfl, rfl⟩)).1
  exact h.eval_agree (h.cost_lt hs₁ hg) (Nat.lt_succ_self _)

theorem run_moves (h : Ranked pos lim strict rank width body) (f : F) :
    Moves pos lim (strict f) (run note body pos lim rank width f) :=
  fun _ _ _ _ _ hp => h.eval_moves _ f hp

end Ranked

/-- What holds of every answer of a body, given that it holds of the answers to its calls, holds of every
    answer of the family. -/
theorem run_induct {note : F → σ → μ → μ} {body : (F → Parser σ μ) → F → Parser σ μ} {pos : σ → Nat}
    {lim width : Nat} {rank : F → Nat} {P : F → σ → μ → Bool → σ → μ → Prop}
    (step : ∀ call : F → Parser σ μ,
      (∀ g s m b s' m', call g s m = some (b, s', m') → P g s m b s' m') →
        ∀ f s m b s' m', body call f s (note f s m) = some (b, s', m') → P f s m b s' m')
    {f : F} {s s' : σ} {m m' : μ} {b : Bool} (h : run note body pos lim rank width f s m = some (b, s', m')) :
    P f s m b s' m' := by
  suffices all : ∀ n g s m b s' m', eval note body n g s m = some (b, s', m') → P g s m b s' m' from
    all _ _ _ _ _ _ _ h
  intro n
  induction n with
  | zero => intro g s m b s' m' h; cases h
  | succ n ih => exact step _ ih

end Backtrack
