import Mathlib.Data.List.Basic

/-! # Numbered memory cells

Cells are written one at a time; `written` is a ghost that remembers which. The loops here are those that go through a
range of cells from left to right: to store a list, to copy within the memory, to fill, and to reverse. A loop is
described by the range that it writes in (`Writes`) and by what is in the cells afterwards. -/

namespace Memory

structure Cells (α : Type) where
  cell : Nat → α
  /-- The cells that have been written, the newest first. -/
  written : List Nat

namespace Cells
variable {α : Type}

def write (i : Nat) (a : α) (m : Cells α) : Cells α := 
  ⟨fun j => if j = i then a else m.cell j, i :: m.written⟩

def swap (i j : Nat) (m : Cells α) : Cells α := (m.write i (m.cell j)).write j (m.cell i)

/-- The values of a list, one behind the other. -/
def store (start : Nat) : List α → Cells α → Cells α
  | [], m => m
  | a :: l, m => store (start + 1) l (m.write start a)

/-- So many cells, each to the cell at the same distance: a cell that has been written is read as it is now. -/
def copy (source target : Nat) : Nat → Cells α → Cells α
  | 0, m => m
  | n + 1, m => copy (source + 1) (target + 1) n (m.write target (m.cell source))

/-- The same cells, all of which are read before the first one is written. -/
def move (source target n : Nat) (m : Cells α) : Cells α := m.store target ((List.range n).map fun k => m.cell (source + k))

def fill (start : Nat) (a : α) : Nat → Cells α → Cells α
  | 0, m => m
  | n + 1, m => fill (start + 1) a n (m.write start a)

/-- The outermost two cells of a range are exchanged, then those between them. -/
def reverse (start : Nat) : Nat → Cells α → Cells α
  | 0, m => m
  | 1, m => m
  | n + 2, m => reverse (start + 1) n (m.swap start (start + n + 1))

/-- The cells from `start` on as a memory of their own. -/
def drop (start : Nat) (m : Cells α) : Cells α := ⟨fun i => m.cell (start + i), []⟩

/-- Such a memory is put back. -/
def put (start : Nat) (m part : Cells α) : Cells α :=
  ⟨fun i => if i < start then m.cell i else part.cell (i - start), part.written.map (start + ·) ++ m.written⟩

/-- What is in a range of cells. -/
def slice (start n : Nat) (m : Cells α) : List α := (List.range n).map fun k => m.cell (start + k)

end Cells

/-- Nothing but cells of a range is written. -/
structure Writes {α : Type} (lo hi : Nat) (m m' : Cells α) : Prop where
  frame : ∀ i, i < lo ∨ hi ≤ i → m'.cell i = m.cell i
  written : ∃ l, m'.written = l ++ m.written ∧ ∀ i ∈ l, lo ≤ i ∧ i < hi

section
variable {α : Type} {lo hi lo' hi' start n k d source target i j : Nat} {a : α} {l : List α} {m m' m'' : Cells α}

namespace Writes

theorem refl (lo hi : Nat) (m : Cells α) : Writes lo hi m m := ⟨fun _ _ => rfl, [], rfl, by simp⟩

theorem trans (h : Writes lo hi m m') (h' : Writes lo hi m' m'') : Writes lo hi m m'' := by
  obtain ⟨l, hl, hin⟩ := h.written
  obtain ⟨l', hl', hin'⟩ := h'.written
  refine ⟨fun i hi => (h'.frame i hi).trans (h.frame i hi), l' ++ l, ?_, ?_⟩
  · rw [hl', hl, List.append_assoc]
  · intro i hi
    rcases List.mem_append.mp hi with hi | hi
    · exact hin' i hi
    · exact hin i hi

theorem mono (h : Writes lo hi m m') (hlo : lo' ≤ lo) (hhi : hi ≤ hi') : Writes lo' hi' m m' := by
  obtain ⟨l, hl, hin⟩ := h.written
  refine ⟨fun i hi => h.frame i ?_, l, hl, ?_⟩
  · omega
  · intro i hi
    obtain ⟨hle, hlt⟩ := hin i hi
    omega

/-- What has been written before a bound stays before it. -/
theorem before (h : Writes lo hi m m') (hbefore : ∀ i ∈ m.written, i < n) (hhi : hi ≤ n) : ∀ i ∈ m'.written, i < n := by
  obtain ⟨l, hl, hin⟩ := h.written
  intro i hi
  rw [hl] at hi
  rcases List.mem_append.mp hi with hi | hi
  · exact Nat.lt_of_lt_of_le (hin i hi).2 hhi
  · exact hbefore i hi

end Writes

theorem write_writes (hlo : lo ≤ i) (hhi : i < hi) : Writes lo hi m (m.write i a) := by
  refine ⟨fun j hj => ?_, [i], rfl, ?_⟩
  · have hne : j ≠ i := by omega
    exact if_neg hne
  · intro j hj
    rw [List.mem_singleton.mp hj]
    exact ⟨hlo, hhi⟩

theorem swap_writes (h : lo ≤ i ∧ i < hi) (h' : lo ≤ j ∧ j < hi) : Writes lo hi m (m.swap i j) :=
  (write_writes h.1 h.2).trans (write_writes h'.1 h'.2)

@[simp] theorem cell_write_self : (m.write i a).cell i = a := if_pos rfl

theorem cell_write_of_ne (h : j ≠ i) : (m.write i a).cell j = m.cell j := if_neg h

@[simp] theorem cell_swap_right : (m.swap i j).cell j = m.cell i := cell_write_self

theorem cell_swap_left : (m.swap i j).cell i = m.cell j := by
  by_cases h : i = j
  · subst h
    exact cell_swap_right
  · unfold Cells.swap
    rw [cell_write_of_ne h, cell_write_self]

theorem cell_swap_of_ne (hi : k ≠ i) (hj : k ≠ j) : (m.swap i j).cell k = m.cell k := by
  unfold Cells.swap
  rw [cell_write_of_ne hj, cell_write_of_ne hi]

/-! ### The ranges -/

theorem store_writes : Writes start (start + l.length) m (m.store start l) := by
  induction l generalizing start m with
  | nil => exact Writes.refl ..
  | cons a l ih =>
    rw [List.length_cons]
    exact (write_writes (Nat.le_refl start) (by omega)).trans (ih.mono (by omega) (by omega))

theorem copy_writes : Writes target (target + n) m (m.copy source target n) := by
  induction n generalizing source target m with
  | zero => exact Writes.refl ..
  | succ n ih => exact (write_writes (Nat.le_refl target) (by omega)).trans (ih.mono (by omega) (by omega))

theorem move_writes : Writes target (target + n) m (m.move source target n) := by
  have hstore : Writes target (target + ((List.range n).map fun k => m.cell (source + k)).length) m
      (m.move source target n) := store_writes
  rwa [List.length_map, List.length_range] at hstore

theorem fill_writes : Writes start (start + n) m (m.fill start a n) := by
  induction n generalizing start m with
  | zero => exact Writes.refl ..
  | succ n ih => exact (write_writes (Nat.le_refl start) (by omega)).trans (ih.mono (by omega) (by omega))

theorem reverse_writes : Writes start (start + n) m (m.reverse start n) := by
  induction start, n, m using Cells.reverse.induct with
  | case1 | case2 => exact Writes.refl ..
  | case3 start n m ih =>
    exact (swap_writes ⟨by omega, by omega⟩ ⟨by omega, by omega⟩).trans (ih.mono (by omega) (by omega))

/-! ### What is in the cells -/

@[simp] theorem length_slice : (m.slice start n).length = n := by
  simp [Cells.slice]

@[simp] theorem getElem_slice (h : k < (m.slice start n).length) : (m.slice start n)[k] = m.cell (start + k) := by
  simp [Cells.slice]

theorem slice_eq_iff (hlength : l.length = n) :
    m.slice start n = l ↔ ∀ k (h : k < l.length), m.cell (start + k) = l[k] := by
  constructor
  · intro h k hk
    subst h
    exact (getElem_slice hk).symm
  · intro h
    refine List.ext_getElem ?_ fun k hk hk' => ?_
    · rw [length_slice, hlength]
    · rw [getElem_slice, h k hk']

theorem slice_congr (h : ∀ k < n, m'.cell (start + k) = m.cell (start + k)) : m'.slice start n = m.slice start n :=
  List.map_congr_left fun k hk => h k (List.mem_range.mp hk)

theorem slice_add (n' : Nat) : m.slice start (n + n') = m.slice start n ++ m.slice (start + n) n' := by
  unfold Cells.slice
  rw [List.range_add, List.map_append, List.map_map]
  congr 2
  funext k
  exact congrArg m.cell (Nat.add_assoc start n k).symm

/-- The two parts of what is in a range. -/
theorem slice_split {l' : List α} (h : m.slice start n = l ++ l') :
    m.slice start l.length = l ∧ m.slice (start + l.length) l'.length = l' := by
  have hn : n = l.length + l'.length := by simpa using congrArg List.length h
  rw [hn, slice_add] at h
  exact List.append_inj h length_slice

theorem slice_store (start : Nat) : (m.store start l).slice start l.length = l := by
  induction l generalizing start m with
  | nil => rfl
  | cons a l ih =>
    have hfirst : ((m.write start a).store (start + 1) l).cell start = a := by
      rw [(store_writes (m := m.write start a)).frame start (Or.inl (by omega)), cell_write_self]
    rw [List.length_cons, Nat.add_comm, slice_add, Cells.store, ih]
    exact congrArg (· :: l) hfirst

/-- A list that is stored behind another one. -/
theorem slice_store_append (h : m.slice start n = l) (l' : List α) :
    (m.store (start + n) l').slice start (n + l'.length) = l ++ l' := by
  rw [slice_add, slice_store, slice_congr (m := m), h]
  intro k hk
  exact store_writes.frame _ (Or.inl (by omega))

theorem slice_fill : (m.fill start a n).slice start n = List.replicate n a := by
  induction n generalizing start m with
  | zero => rfl
  | succ n ih =>
    have hfirst : ((m.write start a).fill (start + 1) a n).cell start = a := by
      rw [(fill_writes (m := m.write start a)).frame start (Or.inl (by omega)), cell_write_self]
    rw [Nat.add_comm, slice_add, Nat.add_comm, Cells.fill, ih]
    exact congrArg (· :: List.replicate n a) hfirst

theorem cell_reverse (h : i + j + 1 = n) : (m.reverse start n).cell (start + i) = m.cell (start + j) := by
  induction start, n, m using Cells.reverse.induct generalizing i j with
  | case1 => omega
  | case2 =>
    have hij : i = j := by omega
    rw [hij, Cells.reverse]
  | case3 start n m ih =>
    rw [Cells.reverse]
    have hrange : Writes (start + 1) (start + 1 + n) (m.swap start (start + n + 1)) _ := reverse_writes
    rcases Nat.eq_zero_or_pos i with rfl | hi
    · have hlast : start + j = start + n + 1 := by omega
      rw [hrange.frame _ (Or.inl (by omega)), hlast, Nat.add_zero start, cell_swap_left]
    · rcases Nat.eq_zero_or_pos j with rfl | hj
      · have hlast : start + i = start + n + 1 := by omega
        rw [hrange.frame _ (Or.inr (by omega)), hlast, cell_swap_right, Nat.add_zero]
      · obtain ⟨i, rfl⟩ : ∃ i', i = i' + 1 := ⟨i - 1, by omega⟩
        obtain ⟨j, rfl⟩ : ∃ j', j = j' + 1 := ⟨j - 1, by omega⟩
        have hinner := ih (i := i) (j := j) (by omega)
        rw [show start + (i + 1) = start + 1 + i by omega, hinner, cell_swap_of_ne (by omega) (by omega)]
        congr 1
        omega

theorem slice_reverse : (m.reverse start n).slice start n = (m.slice start n).reverse := by
  rw [slice_eq_iff (by simp)]
  intro k hk
  have hlt : k < n := by simpa using hk
  rw [List.getElem_reverse, getElem_slice, length_slice]
  exact cell_reverse (by omega)

/-- A copy to the right reads the first cells of its source over and over: those behind them have been written by then. -/
theorem cell_copy (hd : 0 < d) (hk : k < n) :
    (m.copy source (source + d) n).cell (source + d + k) = m.cell (source + k % d) := by
  induction n generalizing source m k with
  | zero => omega
  | succ n ih =>
    rw [Cells.copy]
    rcases Nat.eq_zero_or_pos k with rfl | hpos
    · rw [Nat.zero_mod, copy_writes.frame _ (Or.inl (by omega))]
      exact cell_write_self
    · obtain ⟨k, rfl⟩ : ∃ k', k = k' + 1 := ⟨k - 1, by omega⟩
      have hnext := @ih k (source + 1) (m.write (source + d) (m.cell source)) (by omega)
      rw [show source + d + 1 = source + 1 + d by omega, show source + d + (k + 1) = source + 1 + d + k by omega, hnext]
      have hlt := Nat.mod_lt k hd
      by_cases hwrap : k % d + 1 = d
      · have hmod : (k + 1) % d = 0 := by rw [← Nat.mod_add_mod, hwrap, Nat.mod_self]
        rw [hmod, show source + 1 + k % d = source + d by omega, cell_write_self, Nat.add_zero]
      · have hmod : (k + 1) % d = k % d + 1 := by
          rw [← Nat.mod_add_mod]
          exact Nat.mod_eq_of_lt (by omega)
        rw [hmod, cell_write_of_ne (by omega)]
        congr 1
        omega

/-- What is moved to the right within the memory, with the cells before it filled. -/
theorem slice_shift (hd : 0 < d) : ((m.copy start (start + d) n).fill start a d).slice start (d + n)
    = List.replicate d a ++ (List.range n).map fun k => m.cell (start + k % d) := by
  rw [slice_add, slice_fill]
  congr 1
  refine List.map_congr_left fun k hk => ?_
  rw [fill_writes.frame _ (Or.inr (by omega)), cell_copy hd (List.mem_range.mp hk)]

theorem slice_move : ((m.move start (start + d) n).fill start a d).slice start (d + n) = List.replicate d a ++
    m.slice start n := by
  have hstored := slice_store (l := m.slice start n) (m := m) (start + d)
  rw [length_slice] at hstored
  rw [slice_add, slice_fill, slice_congr (m := m.move start (start + d) n)]
  · exact congrArg _ hstored
  · exact fun k _ => fill_writes.frame _ (Or.inr (by omega))

/-! ### A part of the memory -/

/-- What is written in a part of the memory is written behind its start. -/
theorem put_writes {part : Cells α} (h : Writes lo hi (m.drop start) part) :
    Writes (start + lo) (start + hi) m (m.put start part) := by
  obtain ⟨l, hl, hin⟩ := h.written
  refine ⟨fun i hi => ?_, l.map (start + ·), ?_, ?_⟩
  · by_cases hlt : i < start
    · exact if_pos hlt
    · obtain ⟨k, rfl⟩ := Nat.exists_eq_add_of_le (Nat.le_of_not_lt hlt)
      refine (if_neg hlt).trans ?_
      rw [Nat.add_sub_cancel_left]
      exact h.frame k (by omega)
  · change part.written.map (start + ·) ++ m.written = _
    rw [hl]
    exact congrArg (fun l => l.map (start + ·) ++ m.written) (List.append_nil l)
  · intro i hi
    obtain ⟨k, hk, rfl⟩ := List.mem_map.mp hi
    obtain ⟨hle, hlt⟩ := hin k hk
    omega

theorem cell_put {part : Cells α} : (m.put start part).cell (start + k) = part.cell k := by
  refine (if_neg (by omega)).trans ?_
  rw [Nat.add_sub_cancel_left]

theorem slice_put {part : Cells α} : (m.put start part).slice 0 (start + n) = m.slice 0 start ++ part.slice 0 n := by
  rw [slice_add, Nat.zero_add]
  congr 1
  · exact slice_congr fun k hk => if_pos (by omega)
  · refine List.map_congr_left fun k hk => ?_
    rw [cell_put, Nat.zero_add]

end

end Memory
