import Glog.Run.Guarded

/-! # Threads over a shared memory

Every thread is at a place of its own. A step takes one thread from its place through one access to the memory, and any
thread may be the next one. -/

namespace Run

structure Threads (σ π : Type) where
  shared : σ
  places : List π
  deriving DecidableEq, Repr

/-! ### Counting the threads at a place -/

section
variable {π : Type} [DecidableEq π] {l : List π} {k : Nat} {p : π}

theorem count_set_add (h : l[k]? = some p) (q r : π) :
    (l.set k q).count r + (if p = r then 1 else 0) = l.count r + (if q = r then 1 else 0) := by
  induction l generalizing k with
  | nil => cases h
  | cons a l ih =>
    cases k with
    | zero =>
      rw [List.getElem?_cons_zero, Option.some_inj] at h
      subst h
      simp only [List.set_cons_zero, List.count_cons, beq_iff_eq]
      omega
    | succ k =>
      have hrest := ih (k := k) (by simpa using h)
      simp only [List.set_cons_succ, List.count_cons]
      omega

theorem one_le_count (h : l[k]? = some p) : 1 ≤ l.count p := List.count_pos_iff.mpr (List.mem_of_getElem? h)

theorem count_three_le {a b c : π} (hab : a ≠ b) (hac : a ≠ c) (hbc : b ≠ c) :
    l.count a + l.count b + l.count c ≤ l.length := by
  induction l with
  | nil => simp
  | cons x l ih =>
    simp only [List.count_cons, List.length_cons, beq_iff_eq]
    by_cases hxa : x = a
    · subst hxa
      simp only [if_pos, if_neg hab, if_neg hac]
      omega
    · by_cases hxb : x = b
      · subst hxb
        simp only [if_pos, if_neg hxa, if_neg hbc]
        omega
      · simp only [if_neg hxa, if_neg hxb]
        split <;> omega

end

namespace Threads
variable {σ π ι : Type} (access : σ → π → ι → σ × π)

/-- The thread with the number `a.1` takes a step. -/
def step (s : Threads σ π) (a : Nat × ι) : Threads σ π :=
  match s.places[a.1]? with
  | none => s
  | some p => ⟨(access s.shared p a.2).1, s.places.set a.1 (access s.shared p a.2).2⟩

/-- Some order of the threads' steps leads from one state to the other. -/
def Interleaves (s t : Threads σ π) : Prop := Reaches (step access) (fun _ _ => True) s t

/-- What one thread makes of the memory when no other one takes a step. -/
def alone (c : σ × π) (is : List ι) : σ × π := is.foldl (fun c i => access c.1 c.2 i) c

variable {access} {s t u : Threads σ π} {p q : π}

theorem alone_append (c : σ × π) (is js : List ι) : alone access c (is ++ js) = alone access (alone access c is) js :=
  List.foldl_append

theorem step_of_place {k : Nat} (h : s.places[k]? = some p) (i : ι) :
    step access s (k, i) = ⟨(access s.shared p i).1, s.places.set k (access s.shared p i).2⟩ := by
  unfold step
  rw [h]

namespace Interleaves

theorem refl (s : Threads σ π) : Interleaves access s s := .start

theorem trans (h : Interleaves access s t) (h' : Interleaves access t u) : Interleaves access s u := Reaches.trans h h'

/-- What one access of one thread preserves holds at the end of every interleaving. -/
theorem invariant {I : Threads σ π → Prop} (h : Interleaves access s t) (hstart : I s)
    (hstep : ∀ (t : Threads σ π) k p i, I t → t.places[k]? = some p →
      I ⟨(access t.shared p i).1, t.places.set k (access t.shared p i).2⟩) :
    I t := by
  refine Reaches.invariant h hstart ?_
  rintro t ⟨k, i⟩ hI -
  cases hp : t.places[k]? with
  | none =>
    unfold step
    rwa [hp]
  | some p =>
    rw [step_of_place hp]
    exact hstep t k p i hI hp

theorem one {k : Nat} (h : s.places[k]? = some p) (i : ι) :
    Interleaves access s ⟨(access s.shared p i).1, s.places.set k (access s.shared p i).2⟩ := by
  rw [← step_of_place h]
  exact (refl s).next (k, i) trivial

/-- One thread may take several steps in a row. -/
theorem of_alone {k : Nat} (h : s.places[k]? = some p) {is : List ι} {m : σ}
    (halone : alone access (s.shared, p) is = (m, q)) :
    Interleaves access s ⟨m, s.places.set k q⟩ := by
  induction is generalizing s p with
  | nil =>
    obtain ⟨rfl, rfl⟩ := Prod.mk.inj halone
    obtain ⟨hlt, hp⟩ := List.getElem?_eq_some_iff.mp h
    rw [← hp, List.set_getElem_self]
    exact refl s
  | cons i is ih =>
    have hlt := (List.getElem?_eq_some_iff.mp h).1
    have hnext := ih (s := ⟨(access s.shared p i).1, s.places.set k (access s.shared p i).2⟩)
      (List.getElem?_set_self hlt) halone
    rw [List.set_set] at hnext
    exact (one h i).trans hnext

theorem length (h : Interleaves access s t) : t.places.length = s.places.length :=
  h.invariant (I := fun t => t.places.length = s.places.length) rfl fun _ _ _ _ hI _ => List.length_set.trans hI

end Interleaves

end Threads

end Run
