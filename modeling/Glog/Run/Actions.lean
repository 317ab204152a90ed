/-! # Lists of actions

What a piece of code does, in order. An action may stop the rest, as an exception does. `hold` follows a mutex
through the actions of one thread. -/

namespace Run

/-! ### What holds of every action -/

def Every {α : Type} (P : α → Prop) (l : List α) : Prop := ∀ a ∈ l, P a

section
variable {α : Type} {P Q : α → Prop} {l l' : List α}

theorem every_nil : Every P [] := fun _ h => nomatch h

theorem every_singleton {a : α} (h : P a) : Every P [a] := fun _ ha => List.mem_singleton.mp ha ▸ h

theorem Every.append (h : Every P l) (h' : Every P l') : Every P (l ++ l') :=
  fun a ha => (List.mem_append.mp ha).elim (h a) (h' a)

theorem Every.cons {a : α} (h : Every P l) (ha : P a) : Every P (a :: l) := (every_singleton ha).append h

theorem Every.of_subset (h : Every P l') (hsub : ∀ a ∈ l, a ∈ l') : Every P l := fun a ha => h a (hsub a ha)

theorem Every.mono (h : Every P l) (hmono : ∀ a, P a → Q a) : Every Q l := fun a ha => hmono a (h a ha)

theorem every_map {β : Type} {f : β → α} (h : ∀ b, P (f b)) (l : List β) : Every P (l.map f) := by
  intro a ha
  obtain ⟨b, -, rfl⟩ := List.mem_map.mp ha
  exact h b

theorem every_ite {c : Prop} [Decidable c] (h : Every P l) (h' : Every P l') : Every P (if c then l else l') := by
  split
  · exact h
  · exact h'

end

/-! ### Actions that stop the rest -/

section
variable {α : Type} (stops : α → Bool)

/-- What is done until an action stops the rest, and whether one does. -/
def upTo : List α → List α × Bool
  | [] => ([], false)
  | a :: rest => if stops a then ([a], true) else (a :: (upTo rest).1, (upTo rest).2)

variable {stops}

theorem upTo_append {l : List α} (h : ∀ a ∈ l, stops a = false) (l' : List α) :
    upTo stops (l ++ l') = (l ++ (upTo stops l').1, (upTo stops l').2) := by
  induction l with
  | nil => rfl
  | cons a l ih =>
    rw [List.forall_mem_cons] at h
    rw [List.cons_append, upTo, h.1, ih h.2]
    rfl

theorem upTo_append_of_stops {l : List α} (h : ∃ a ∈ l, stops a = true) (l' : List α) :
    upTo stops (l ++ l') = upTo stops l := by
  induction l with
  | nil =>
    obtain ⟨a, ha, -⟩ := h
    cases ha
  | cons a l ih =>
    rw [List.cons_append, upTo, upTo]
    cases hstops : stops a with
    | true => rfl
    | false =>
      obtain ⟨b, hb, hb'⟩ := h
      rcases List.mem_cons.mp hb with rfl | hmem
      · rw [hstops] at hb'
        cases hb'
      · rw [ih ⟨b, hmem, hb'⟩]

theorem upTo_eq {l : List α} (h : ∀ a ∈ l, stops a = false) : upTo stops l = (l, false) := by
  have happend := upTo_append h []
  rwa [List.append_nil, upTo, List.append_nil] at happend

theorem upTo_stopped {l : List α} : (upTo stops l).2 = true ↔ ∃ a ∈ l, stops a = true := by
  constructor
  · intro h
    by_cases hall : ∀ a ∈ l, stops a = false
    · rw [upTo_eq hall] at h
      cases h
    · obtain ⟨a, hnot⟩ := Classical.not_forall.mp hall
      obtain ⟨ha, hstops⟩ := Classical.not_imp.mp hnot
      exact ⟨a, ha, (Bool.not_eq_false _).mp hstops⟩
  · induction l with
    | nil =>
      rintro ⟨a, ha, -⟩
      cases ha
    | cons a l ih =>
      rintro ⟨b, hb, hstops⟩
      rw [upTo]
      split
      · rfl
      · rename_i hnot
        rcases List.mem_cons.mp hb with rfl | hmem
        · exact absurd hstops hnot
        · exact ih ⟨b, hmem, hstops⟩

theorem mem_of_upTo {a : α} : ∀ {l : List α}, a ∈ (upTo stops l).1 → a ∈ l
  | [], h => h
  | b :: l, h => by
    rw [upTo] at h
    split at h
    · rw [List.mem_singleton.mp h]
      exact List.mem_cons_self
    · rcases List.mem_cons.mp h with rfl | hmem
      · exact List.mem_cons_self
      · exact List.mem_cons_of_mem b (mem_of_upTo hmem)

end

/-! ### A mutex -/

inductive MutexOp
  | acquire
  | release
  /-- What the mutex guards is used. -/
  | use

/-- Whether the mutex is held afterwards; there is no answer if one that is not held is released, or what it
    guards is used, or one that is held is acquired. -/
def MutexOp.next : MutexOp → Bool → Option Bool
  | .acquire, false => some true
  | .release, true => some false
  | .use, true => some true
  | _, _ => none

section
variable {α : Type} (op : α → Option MutexOp)

def hold : List α → Bool → Option Bool
  | [], held => some held
  | a :: rest, held =>
    match op a with
    | none => hold rest held
    | some o => (o.next held).bind (hold rest)

/-- The mutex is released by who acquired it, and what it guards is used in between. -/
def Balanced (l : List α) : Prop := hold op l false = some false

variable {op}

theorem hold_append (l l' : List α) (held : Bool) : hold op (l ++ l') held = (hold op l held).bind (hold op l') := by
  induction l generalizing held with
  | nil => rfl
  | cons a l ih =>
    rw [List.cons_append, hold, hold]
    cases op a with
    | none => exact ih held
    | some o =>
      dsimp only
      cases o.next held with
      | none => rfl
      | some held' => exact ih held'

theorem hold_quiet {held : Bool} {l : List α} (h : ∀ a ∈ l, op a = none) : hold op l held = some held := by
  induction l with
  | nil => rfl
  | cons a l ih =>
    rw [List.forall_mem_cons] at h
    rw [hold, h.1]
    exact ih h.2

end

end Run
