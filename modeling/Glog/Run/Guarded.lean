/-! # Runs of a machine with inputs

`Reaches step ok s t`: from `s` the machine gets to `t` by inputs that each meet the condition `ok` at the
state before them. What every such step preserves holds at the end of every run. -/

namespace Run
variable {σ ι : Type} {step : σ → ι → σ} {ok : σ → ι → Prop} {s t u : σ}

inductive Reaches (step : σ → ι → σ) (ok : σ → ι → Prop) (s : σ) : σ → Prop
  | start : Reaches step ok s s
  | next {t : σ} (i : ι) : Reaches step ok s t → ok t i → Reaches step ok s (step t i)

namespace Reaches

/-- What a step preserves holds in every state reached. -/
theorem invariant {I : σ → Prop} (h : Reaches step ok s t) (hstart : I s)
    (hstep : ∀ t i, I t → ok t i → I (step t i)) : I t := by
  induction h with
  | start => exact hstart
  | next i _ hok ih => exact hstep _ i ih hok

theorem trans (h : Reaches step ok s t) (h' : Reaches step ok t u) : Reaches step ok s u := by
  induction h' with
  | start => exact h
  | next i _ hok ih => exact ih.next i hok

theorem head {i : ι} (hok : ok s i) (h : Reaches step ok (step s i) t) : Reaches step ok s t := (start.next i hok).trans h

/-- The run on a list of inputs. -/
theorem foldl {is : List ι} (h : ∀ t, ∀ i ∈ is, ok t i) : Reaches step ok s (is.foldl step s) := by
  induction is generalizing s with
  | nil => exact .start
  | cons i is ih =>
    exact head (h s i List.mem_cons_self) (ih fun t j hj => h t j (List.mem_cons_of_mem i hj))

end Reaches

/-! ### All along a run -/

/-- Every state of the run on a list of inputs, the first and the last one included. -/
def Always (step : σ → ι → σ) (I : σ → Prop) : σ → List ι → Prop
  | s, [] => I s
  | s, i :: is => I s ∧ Always step I (step s i) is

/-- Every input of the run meets the condition. -/
def Each (step : σ → ι → σ) (ok : σ → ι → Prop) : σ → List ι → Prop
  | _, [] => True
  | s, i :: is => ok s i ∧ Each step ok (step s i) is

instance Each.decidable [∀ s i, Decidable (ok s i)] : ∀ (s : σ) (is : List ι), Decidable (Each step ok s is)
  | _, [] => isTrue trivial
  | s, i :: is =>
    have : Decidable (Each step ok (step s i) is) := decidable (step s i) is
    inferInstanceAs (Decidable (_ ∧ _))

theorem Each.reaches {is : List ι} (h : Each step ok s is) : Reaches step ok s (is.foldl step s) := by
  induction is generalizing s with
  | nil => exact .start
  | cons i is ih => exact .head h.1 (ih h.2)

section
variable {I N : σ → Prop} {is : List ι}

theorem Always.head (h : Always step I s is) : I s := by
  cases is with
  | nil => exact h
  | cons i is => exact h.1

/-- What is kept by exactly the steps that meet a condition holds all along exactly the runs of such steps; `N` is
    what every step keeps. -/
theorem always_iff_each (hkept : ∀ t i, N t → N (step t i)) (hstep : ∀ t i, N t → I t → (I (step t i) ↔ ok t i))
    (hN : N s) (hI : I s) : Always step I s is ↔ Each step ok s is := by
  induction is generalizing s with
  | nil => exact ⟨fun _ => trivial, fun _ => hI⟩
  | cons i is ih =>
    constructor
    · rintro ⟨-, hrest⟩
      have hnext : I (step s i) := hrest.head
      exact ⟨(hstep s i hN hI).mp hnext, (ih (hkept s i hN) hnext).mp hrest⟩
    · rintro ⟨hok, hrest⟩
      have hnext : I (step s i) := (hstep s i hN hI).mpr hok
      exact ⟨hI, (ih (hkept s i hN) hnext).mpr hrest⟩

/-- What the steps that meet a condition keep holds all along a run of such steps. -/
theorem always_of_each (hstep : ∀ t i, I t → ok t i → I (step t i)) (hI : I s) (h : Each step ok s is) :
    Always step I s is := by
  induction is generalizing s with
  | nil => exact hI
  | cons i is ih => exact ⟨hI, ih (hstep s i hI h.1) h.2⟩

theorem Always.imp {J : σ → Prop} (himp : ∀ t, I t → J t) (h : Always step I s is) : Always step J s is := by
  induction is generalizing s with
  | nil => exact himp s h
  | cons i is ih => exact ⟨himp s h.1, ih h.2⟩

/-- A condition without which a possible step breaks `I` is met by every step of a run along which `I` holds. -/
theorem each_of_always {possible : σ → ι → Prop} (hstep : ∀ t i, possible t i → I (step t i) → ok t i)
    (h : Each step possible s is) (halways : Always step I s is) : Each step ok s is := by
  induction is generalizing s with
  | nil => trivial
  | cons i is ih => exact ⟨hstep s i h.1 halways.2.head, ih h.2 halways.2⟩

theorem Each.and {ok' : σ → ι → Prop} (h : Each step ok s is) (h' : Each step ok' s is) :
    Each step (fun s i => ok s i ∧ ok' s i) s is := by
  induction is generalizing s with
  | nil => trivial
  | cons i is ih => exact ⟨⟨h.1, h'.1⟩, ih h.2 h'.2⟩

/-- Among the steps that are possible, exactly those that meet a condition keep it. -/
theorem always_iff_each_within {possible : σ → ι → Prop} (hstep : ∀ t i, I t → possible t i → (I (step t i) ↔ ok t i))
    (hI : I s) (h : Each step possible s is) : Always step I s is ↔ Each step ok s is := by
  induction is generalizing s with
  | nil => exact ⟨fun _ => trivial, fun _ => hI⟩
  | cons i is ih =>
    constructor
    · rintro ⟨-, hrest⟩
      have hnext : I (step s i) := hrest.head
      exact ⟨(hstep s i hI h.1).mp hnext, (ih hnext h.2).mp hrest⟩
    · rintro ⟨hok, hrest⟩
      have hnext : I (step s i) := (hstep s i hI h.1).mpr hok
      exact ⟨hI, (ih hnext h.2).mpr hrest⟩

end

end Run
