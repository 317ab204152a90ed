import Glog.Memory.Cells

/-! # Terminated strings in memory

A string goes up to the first null character. `strncpy` writes as many characters as it is told: those of the source,
and null characters for the rest. -/

namespace Memory
namespace Cells

variable {α : Type} (nul : α)

/-- `strncpy(target, source, n)`; the source is the string without its terminator. -/
def strncpy (target : Nat) (source : List α) (n : Nat) (m : Cells α) : Cells α :=
  (m.store target (source.take n)).fill (target + min n source.length) nul (n - source.length)

/-- The string at `start`, as far as it goes in `n` cells. -/
def string [DecidableEq α] (start n : Nat) (m : Cells α) : List α := (m.slice start n).takeWhile (· ≠ nul)

end Cells

section
variable {α : Type} {nul : α} {source l l' : List α} {target start n : Nat} {m : Cells α}

theorem strncpy_writes : Writes target (target + n) m (m.strncpy nul target source n) := by
  have hstore : Writes target (target + n) m (m.store target (source.take n)) :=
    store_writes.mono (Nat.le_refl target) (by rw [List.length_take]; omega)
  exact hstore.trans (fill_writes.mono (Nat.le_add_right ..) (by omega))

theorem slice_strncpy :
    (m.strncpy nul target source n).slice target n = source.take n ++ List.replicate (n - source.length) nul := by
  have hlength : (source.take n).length = min n source.length := List.length_take
  have hsplit : n = min n source.length + (n - source.length) := by omega
  have hstore := slice_store (m := m) (l := source.take n) target
  rw [hlength] at hstore
  conv_lhs => rw [hsplit]
  rw [slice_add, ← hsplit, Cells.strncpy, slice_fill, slice_congr (m := m.store target (source.take n)), hstore]
  exact fun k hk => fill_writes.frame _ (Or.inl (by omega))

/-- A string is what stands before the first null character. -/
theorem takeWhile_string [DecidableEq α] (hnul : nul ∉ l) (l' : List α) :
    (l ++ nul :: l').takeWhile (· ≠ nul) = l := by
  have hkeep : ∀ c ∈ l, decide (c ≠ nul) = true := fun c hc => decide_eq_true fun heq => hnul (heq ▸ hc)
  rw [List.takeWhile_append_of_pos hkeep, List.takeWhile_cons_of_neg (by simp), List.append_nil]

theorem string_of_slice [DecidableEq α] (hnul : nul ∉ l) (h : m.slice start n = l ++ nul :: l') :
    m.string nul start n = l := by
  rw [Cells.string, h, takeWhile_string hnul]

/-! ### A buffer with a string -/

/-- In the first `size` cells there is the string `l` with its terminator. -/
structure HasString (nul : α) (size : Nat) (m : Cells α) (l : List α) : Prop where
  free : nul ∉ l
  slice : ∃ rest, m.slice 0 size = l ++ nul :: rest

variable {size : Nat}

theorem HasString.length_lt (h : HasString nul size m l) : l.length < size := by
  obtain ⟨rest, hslice⟩ := h.slice
  have hlength := congrArg List.length hslice
  simp only [length_slice, List.length_append, List.length_cons] at hlength
  omega

/-- A buffer with a null character holds the string before it. -/
theorem hasString_of_mem [DecidableEq α] (h : nul ∈ m.slice 0 size) : HasString nul size m (m.string nul 0 size) := by
  obtain ⟨l, rest, hslice, hfree⟩ := List.eq_append_cons_of_mem h
  rw [string_of_slice hfree hslice]
  exact ⟨hfree, rest, hslice⟩

theorem takeWhile_terminated [DecidableEq α] (l l' : List α) :
    (l ++ nul :: l').takeWhile (· ≠ nul) = l.takeWhile (· ≠ nul) := by
  induction l with
  | nil => simp
  | cons a l ih => simp only [List.cons_append, List.takeWhile_cons, ih]

theorem HasString.string_eq [DecidableEq α] (h : HasString nul size m l) : m.string nul 0 size = l := by
  obtain ⟨rest, hslice⟩ := h.slice
  exact string_of_slice h.free hslice

theorem HasString.first_eq_nul (h : HasString nul size m l) : m.cell 0 = nul ↔ l = [] := by
  have hlt := h.length_lt
  obtain ⟨rest, hslice⟩ := h.slice
  have hpos : 0 < (l ++ nul :: rest).length := by
    rw [List.length_append, List.length_cons]
    omega
  have hcell : m.cell 0 = (l ++ nul :: rest)[0] :=
    ((slice_eq_iff (by rw [← hslice, length_slice])).mp hslice) 0 hpos
  cases l with
  | nil => exact ⟨fun _ => rfl, fun _ => hcell⟩
  | cons a l =>
    refine ⟨fun hnul => absurd ?_ h.free, nofun⟩
    rw [← hnul, hcell]
    exact List.mem_cons_self

/-- A string behind the start of a part of the memory. -/
theorem HasString.put {part : Cells α} (h : HasString nul size part l) {front : List α} (hfront : m.slice 0 start = front)
    (hfree : nul ∉ front) : HasString nul (start + size) (m.put start part) (front ++ l) := by
  obtain ⟨rest, hslice⟩ := h.slice
  refine ⟨fun hmem => (List.mem_append.mp hmem).elim hfree h.free, rest, ?_⟩
  rw [slice_put, hslice, hfront, List.append_assoc]

/-- A string is appended, as far as there is room, and the last cell is terminated. -/
def Cells.append [DecidableEq α] (nul : α) (size : Nat) (source : List α) (m : Cells α) : Cells α :=
  (m.strncpy nul (m.string nul 0 size).length source (size - (m.string nul 0 size).length)).write (size - 1) nul

theorem slice_write_last {a : α} (hsize : 0 < size) :
    (m.write (size - 1) a).slice 0 size = (m.slice 0 size).take (size - 1) ++ [a] := by
  obtain ⟨n, rfl⟩ := Nat.exists_eq_add_of_lt hsize
  rw [Nat.zero_add, Nat.add_sub_cancel, slice_add, slice_add, List.take_left' length_slice]
  congr 1
  · exact slice_congr fun k hk => cell_write_of_ne (by omega)
  · simp [Cells.slice]

theorem length_string_le [DecidableEq α] : (m.string nul 0 size).length ≤ size := by
  have hle := (List.takeWhile_sublist (l := m.slice 0 size) (· ≠ nul)).length_le
  rwa [length_slice] at hle

theorem append_writes [DecidableEq α] (hsize : 0 < size) : Writes 0 size m (m.append nul size source) := by
  have hle : (m.string nul 0 size).length ≤ size := length_string_le
  exact (strncpy_writes.mono (Nat.zero_le _) (by omega)).trans (write_writes (Nat.zero_le _) (by omega))

/-- A text that is padded with null characters to the size of the buffer, when the last one is put at its end. -/
theorem padded_last (t : List α) :
    ∃ rest, (t.take size ++ List.replicate (size - t.length) nul).take (size - 1) ++ [nul] = t.take (size - 1) ++
      nul :: rest := by
  rw [List.take_append, List.take_take, Nat.min_eq_left (Nat.sub_le size 1), List.take_replicate, List.append_assoc,
    ← List.replicate_succ']
  exact ⟨_, rfl⟩

/-- `strncpy` to the front of a buffer, with a terminator at its end. -/
theorem hasString_strncpy (hsize : 0 < size) (hnul : nul ∉ source) :
    HasString nul size ((m.strncpy nul 0 source size).write (size - 1) nul) (source.take (size - 1)) where
  free hmem := hnul (List.mem_of_mem_take hmem)
  slice := by
    rw [slice_write_last hsize, slice_strncpy]
    exact padded_last source

/-- The terminator at the end of the buffer. -/
theorem HasString.write_last (h : HasString nul size m l) : HasString nul size (m.write (size - 1) nul) l where
  free := h.free
  slice := by
    have hlt := h.length_lt
    obtain ⟨rest, hslice⟩ := h.slice
    rw [slice_write_last (by omega), hslice, List.take_append, List.take_of_length_le (by omega), List.append_assoc]
    cases hrest : size - 1 - l.length with
    | zero => exact ⟨[], rfl⟩
    | succ k => exact ⟨rest.take k ++ [nul], rfl⟩

/-- What is appended behind a string is cut off before the terminator. -/
theorem HasString.append [DecidableEq α] (h : HasString nul size m l) (hnul : nul ∉ source) :
    HasString nul size (m.append nul size source) ((l ++ source).take (size - 1)) := by
  have hlt := h.length_lt
  obtain ⟨rest, hslice⟩ := h.slice
  have hfront : m.slice 0 l.length = l := by
    rw [show size = l.length + (size - l.length) by omega, slice_add] at hslice
    exact (List.append_inj hslice length_slice).1
  have hcopied : (m.strncpy nul l.length source (size - l.length)).slice 0 size =
      (l ++ source).take size ++ List.replicate (size - l.length - source.length) nul := by
    conv_lhs => rw [show size = l.length + (size - l.length) by omega]
    rw [slice_add, Nat.zero_add, ← show size = l.length + (size - l.length) by omega, slice_strncpy, List.take_append,
      List.take_of_length_le (Nat.le_of_lt hlt), List.append_assoc]
    congr 1
    rw [slice_congr (m := m), hfront]
    exact fun k hk => strncpy_writes.frame _ (Or.inl (by omega))
  refine ⟨fun hmem => ?_, ?_⟩
  · rcases List.mem_append.mp (List.mem_of_mem_take hmem) with hmem | hmem
    · exact h.free hmem
    · exact hnul hmem
  · rw [Cells.append, h.string_eq, slice_write_last (by omega), hcopied, Nat.sub_sub, ← List.length_append]
    exact padded_last (l ++ source)

/-! ### The same in other letters -/

section
variable {β : Type} (f : α → β)

def Cells.map (m : Cells α) : Cells β := ⟨fun i => f (m.cell i), m.written⟩

theorem map_write (i : Nat) (a : α) : (m.write i a).map f = (m.map f).write i (f a) := by
  unfold Cells.write Cells.map
  congr 1
  funext j
  dsimp only
  split <;> rfl

theorem map_store : (m.store start l).map f = (m.map f).store start (l.map f) := by
  induction l generalizing start m with
  | nil => rfl
  | cons a l ih => rw [Cells.store, ih, map_write, List.map_cons, Cells.store]

theorem map_fill {a : α} : (m.fill start a n).map f = (m.map f).fill start (f a) n := by
  induction n generalizing start m with
  | zero => rfl
  | succ n ih => rw [Cells.fill, ih, map_write, Cells.fill]

theorem map_strncpy : (m.strncpy nul target source n).map f = (m.map f).strncpy (f nul) target (source.map f) n := by
  rw [Cells.strncpy, map_fill, map_store, List.map_take, Cells.strncpy, List.length_map]

theorem map_slice : (m.map f).slice start n = (m.slice start n).map f := by
  unfold Cells.slice
  rw [List.map_map]
  rfl

/-- A string is found where its letters are. -/
theorem map_string [DecidableEq α] [DecidableEq β] (hnul : ∀ a, f a = f nul ↔ a = nul) :
    (m.map f).string (f nul) start n = (m.string nul start n).map f := by
  unfold Cells.string
  rw [map_slice, List.takeWhile_map]
  congr 2
  funext a
  simp [hnul]

end

end

end Memory
