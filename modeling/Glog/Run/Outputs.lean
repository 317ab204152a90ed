import Mathlib.Data.List.Induction

/-! # Machines with outputs

A machine reads one input at a time, changes its state and gives one output. Where the state tells enough about the
inputs read so far, an output is a function of these and of its own input. -/

namespace Run
section
variable {σ ι ο : Type}

/-- The outputs of a run, one for each input. -/
def outputs (step : σ → ι → ο × σ) (s : σ) : List ι → List ο
  | [] => []
  | i :: is => (step s i).1 :: outputs step (step s i).2 is

def finalState (step : σ → ι → ο × σ) (s : σ) (is : List ι) : σ := is.foldl (fun t i => (step t i).2) s

variable {step : σ → ι → ο × σ} {s : σ} {is : List ι}

@[simp] theorem length_outputs : (outputs step s is).length = is.length := by
  induction is generalizing s with
  | nil => rfl
  | cons i is ih => simp [outputs, ih]

theorem finalState_append (is js : List ι) :
    finalState step s (is ++ js) = finalState step (finalState step s is) js := List.foldl_append

theorem outputs_concat (is : List ι) (i : ι) :
    outputs step s (is ++ [i]) = outputs step s is ++ [(step (finalState step s is) i).1] := by
  induction is generalizing s with
  | nil => rfl
  | cons j is ih => simp [outputs, finalState, ih]

theorem outputs_getElem? (k : Nat) :
    (outputs step s is)[k]? = is[k]?.map fun i => (step (finalState step s (is.take k)) i).1 := by
  induction is generalizing s k with
  | nil => simp [outputs]
  | cons i is ih =>
    cases k with
    | zero => simp [outputs, finalState]
    | succ k => simpa [outputs, finalState] using @ih (step s i).2 k

/-- What relates the state to the inputs before is kept by each step of the run. -/
theorem finalState_induction {R : List ι → σ → Prop} (hstart : R [] s)
    (hstep : ∀ before i t, before ++ [i] <+: is → R before t → R (before ++ [i]) (step t i).2) {before : List ι}
    (h : before <+: is) : R before (finalState step s before) := by
  induction before using List.reverseRecOn with
  | nil => exact hstart
  | append_singleton before i ih =>
    rw [finalState_append]
    exact hstep before i _ h (ih ((List.prefix_append before [i]).trans h))

/-- Each output from the inputs before it. -/
theorem outputs_of_related {R : List ι → σ → Prop} {f : List ι → ι → ο} (hstart : R [] s)
    (hstep : ∀ before i t, before ++ [i] <+: is → R before t → R (before ++ [i]) (step t i).2)
    (hout : ∀ before i t, before ++ [i] <+: is → R before t → (step t i).1 = f before i) (k : Nat) :
    (outputs step s is)[k]? = is[k]?.map fun i => f (is.take k) i := by
  rw [outputs_getElem?]
  cases hi : is[k]? with
  | none => rfl
  | some i =>
    obtain ⟨hlt, rfl⟩ := List.getElem?_eq_some_iff.mp hi
    have hpre : is.take k ++ [is[k]] <+: is := by
      rw [List.take_append_getElem hlt]
      exact List.take_prefix (k + 1) is
    have hrelated := finalState_induction hstart hstep (List.take_prefix k is)
    rw [Option.map_some, Option.map_some, hout _ _ _ hpre hrelated]

end

end Run
