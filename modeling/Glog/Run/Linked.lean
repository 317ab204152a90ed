/-! # Linked lists

A list in memory: each node has a pointer to the next one, and the last one has none. -/

namespace Run
variable {α : Type}

/-- From the pointer the nodes of the list are reached, in this order, and then the end. -/
inductive Chain (next : α → Option α) : Option α → List α → Prop
  | nil : Chain next none []
  | cons {x : α} {l : List α} : Chain next (next x) l → Chain next (some x) (x :: l)

namespace Chain
variable {next next' : α → Option α} {p : Option α} {x : α} {l l' : List α}

theorem unique (h : Chain next p l) (h' : Chain next p l') : l = l' := by
  induction h generalizing l' with
  | nil =>
    cases h'
    rfl
  | cons _ ih =>
    cases h' with
    | cons h' => rw [ih h']

/-- From a node of a list the rest of it is reached. -/
theorem of_mem (h : Chain next p l) (hx : x ∈ l) :
    ∃ front back, l = front ++ x :: back ∧ Chain next (some x) (x :: back) := by
  induction h with
  | nil => cases hx
  | @cons y l h ih =>
    rcases List.mem_cons.mp hx with rfl | hmem
    · exact ⟨[], l, rfl, .cons h⟩
    · obtain ⟨front, back, rfl, hback⟩ := ih hmem
      exact ⟨y :: front, back, rfl, hback⟩

/-- A list that ends has no cycle. -/
theorem nodup (h : Chain next p l) : l.Nodup := by
  induction h with
  | nil => exact List.nodup_nil
  | @cons x l h ih =>
    refine List.nodup_cons.mpr ⟨fun hmem => ?_, ih⟩
    obtain ⟨front, back, rfl, hback⟩ := h.of_mem hmem
    have hlength := congrArg List.length ((Chain.cons h).unique hback)
    simp only [List.length_cons, List.length_append] at hlength
    omega

/-- Only the pointers of the nodes matter. -/
theorem congr (h : Chain next p l) (hnext : ∀ y ∈ l, next' y = next y) : Chain next' p l := by
  induction h with
  | nil => exact .nil
  | @cons x l h ih =>
    rw [List.forall_mem_cons] at hnext
    refine .cons ?_
    rw [hnext.1]
    exact ih hnext.2

end Chain

end Run
