import Glog.Symbolize.Reading

/-! # Scanning a table

Both loops read a table of records in pieces, and go on behind the records that were read. Over a file such a scan ends
unless it gets to an index behind the end of the file, where every piece is empty, or its index turns over. -/

namespace Glog.Symbolize
open Run

/-- A table of `count` records in a file, from an offset on, `stride` apart; at most `chunk` records are read at once,
    one after the other, and the index is below `width`. -/
structure Table where
  file : File
  size : Nat
  chunk : Nat
  count : Nat
  offset : Nat
  stride : Nat
  width : Nat
  sought : Bytes → Bool

namespace Table

/-- What is read at an index. -/
def bytes (T : Table) (i : Nat) : Option Bytes :=
  T.file.bytes (T.size * min T.chunk (T.count - i)) ((T.offset + i * T.stride) % 2 ^ 64)

/-- What is read there are whole records, none of which is sought. -/
def Passes (T : Table) (i : Nat) (buf : Bytes) : Prop :=
  T.bytes i = some buf ∧ T.size ∣ buf.length ∧ ∀ record ∈ records T.size (buf.length / T.size) buf, T.sought record = false

/-- The indices at which a piece is read. -/
inductive Reached (T : Table) : Nat → Prop
  | first : T.Reached 0
  | next {i : Nat} {buf : Bytes} : T.Reached i → i < T.count → T.Passes i buf →
    T.Reached ((i + buf.length / T.size) % T.width)

/-- No piece is empty, and where the index cannot get to the count something stops it. -/
def InReach (T : Table) : Prop :=
  (∀ i, T.Reached i → i < T.count → T.bytes i ≠ some []) ∧
    (T.count < T.width ∨ ∃ i, T.Reached i ∧ i < T.count ∧ ∀ buf, ¬ T.Passes i buf)

/-- A loop that scans the table. -/
structure Scans {ρ : Type} (T : Table) (body : Cursor → Except Fault (Turn Cursor ρ)) : Prop where
  past : ∀ s, T.count ≤ s.i → Turn.result (body s) ≠ none
  stops : ∀ s, s.i < T.count → (∀ buf, ¬ T.Passes s.i buf) → Turn.result (body s) ≠ none
  goes : ∀ s buf, s.i < T.count → T.Passes s.i buf → ∃ call,
    body s = .ok (.again ⟨(s.i + buf.length / T.size) % T.width, call⟩)

variable {ρ : Type} {T : Table} {body : Cursor → Except Fault (Turn Cursor ρ)} {s u : Cursor} {i call : Nat} {buf : Bytes}

theorem length_bytes (h : T.bytes i = some buf) : buf.length ≤ T.size * min T.chunk (T.count - i) := by
  rw [bytes, File.bytes] at h
  split at h
  · cases h
  · cases h
    exact List.length_take_le _ _

theorem Reached.lt (h : T.Reached i) (hwidth : 0 < T.width) : i < T.width := by
  cases h with
  | first => exact hwidth
  | next _ _ _ => exact Nat.mod_lt _ hwidth

/-- The next index where the index does not turn over. -/
theorem next_eq (hwidth : T.count < T.width) (hi : i < T.count) (h : T.bytes i = some buf) :
    (i + buf.length / T.size) % T.width = i + buf.length / T.size ∧ i + buf.length / T.size ≤ T.count := by
  have hle : buf.length / T.size ≤ min T.chunk (T.count - i) := Nat.div_le_of_le_mul (length_bytes h)
  have hbound : i + buf.length / T.size ≤ T.count := by omega
  exact ⟨Nat.mod_eq_of_lt (by omega), hbound⟩

namespace Scans

/-- A turn that goes on has read whole records. -/
theorem again (h : Scans T body) (hbody : body s = .ok (.again u)) :
    s.i < T.count ∧ ∃ buf, T.Passes s.i buf ∧ u.i = (s.i + buf.length / T.size) % T.width := by
  have hnone : Turn.result (body s) = none := Turn.result_eq_none.mpr ⟨u, hbody⟩
  have hlt : s.i < T.count := Nat.lt_of_not_le fun hle => h.past s hle hnone
  have hpasses : ∃ buf, T.Passes s.i buf := Classical.byContradiction fun hnot =>
    h.stops s hlt (fun buf hbuf => hnot ⟨buf, hbuf⟩) hnone
  obtain ⟨buf, hbuf⟩ := hpasses
  obtain ⟨call, hgoes⟩ := h.goes s buf hlt hbuf
  rw [hbody] at hgoes
  cases hgoes
  exact ⟨hlt, buf, hbuf, rfl⟩

theorem reached (h : Scans T body) (hvisits : Visits body ⟨0, call⟩ s) : T.Reached s.i := by
  induction hvisits with
  | start => exact .first
  | again _ hbody ih =>
    obtain ⟨hlt, buf, hpasses, hi⟩ := h.again hbody
    rw [hi]
    exact .next ih hlt hpasses

theorem visits (h : Scans T body) (hreached : T.Reached i) : ∃ call', Visits body ⟨0, call⟩ ⟨i, call'⟩ := by
  induction hreached with
  | first => exact ⟨call, .start⟩
  | @next i buf _ hlt hpasses ih =>
    obtain ⟨call', hvisits⟩ := ih
    obtain ⟨call'', hbody⟩ := h.goes ⟨i, call'⟩ buf hlt hpasses
    exact ⟨call'', hvisits.again hbody⟩

theorem ends_of_stop (h : Scans T body) (hreached : T.Reached i) (hlt : i < T.count) (hstop : ∀ buf, ¬ T.Passes i buf) :
    Ends body ⟨0, call⟩ := by
  obtain ⟨call', hvisits⟩ := @visits _ _ _ _ call h hreached
  exact ends_iff.mpr ⟨⟨i, call'⟩, hvisits, h.stops ⟨i, call'⟩ hlt hstop⟩

/-- An empty piece leaves the index where it is. -/
theorem not_ends_of_empty (h : Scans T body) (hwidth : 0 < T.width) (hreached : T.Reached i) (hlt : i < T.count)
    (hempty : T.bytes i = some []) : ¬ Ends body ⟨0, call⟩ := by
  obtain ⟨call', hvisits⟩ := @visits _ _ _ _ call h hreached
  have hpasses : T.Passes i [] := by
    refine ⟨hempty, Nat.dvd_zero T.size, fun record hrecord => ?_⟩
    rw [records, List.length_nil, Nat.zero_div] at hrecord
    cases hrecord
  intro hends
  refine not_ends_of_trap (T := fun s => s.i = i) rfl (fun t ht => ?_) (hends.of_visits hvisits)
  subst ht
  obtain ⟨call'', hbody⟩ := h.goes t [] hlt hpasses
  refine ⟨_, ?_, hbody⟩
  dsimp only
  rw [List.length_nil, Nat.zero_div, Nat.add_zero, Nat.mod_eq_of_lt (hreached.lt hwidth)]

/-- The scan ends exactly if no piece that it reads is empty and its index can get to the end or is stopped. -/
theorem ends_iff (h : Scans T body) (hsize : 0 < T.size) (hwidth : 0 < T.width) : Ends body ⟨0, call⟩ ↔ T.InReach := by
  constructor
  · intro hends
    refine ⟨fun i hreached hlt hempty => h.not_ends_of_empty hwidth hreached hlt hempty hends, ?_⟩
    refine Classical.byContradiction fun hnot => ?_
    rw [not_or, Nat.not_lt] at hnot
    obtain ⟨t, hvisits, hresult⟩ := Run.ends_iff.mp hends
    have hreached := h.reached hvisits
    have hlt : t.i < T.count := Nat.lt_of_lt_of_le (hreached.lt hwidth) hnot.1
    have hpasses : ∃ buf, T.Passes t.i buf := Classical.byContradiction fun hno =>
      hnot.2 ⟨t.i, hreached, hlt, fun buf hbuf => hno ⟨buf, hbuf⟩⟩
    obtain ⟨buf, hbuf⟩ := hpasses
    obtain ⟨call', hbody⟩ := h.goes t buf hlt hbuf
    exact hresult (Turn.result_eq_none.mpr ⟨_, hbody⟩)
  · rintro ⟨hfull, hlow | ⟨i, hreached, hlt, hstop⟩⟩
    · refine ends_of_decreasing (fun s => T.count - s.i) fun t u hvisits hbody => ?_
      obtain ⟨hlt, buf, hpasses, hi⟩ := h.again hbody
      obtain ⟨heq, hle⟩ := next_eq hlow hlt hpasses.1
      have hne : buf ≠ [] := fun hnil => hfull t.i (h.reached hvisits) hlt (hnil ▸ hpasses.1)
      have hpos : 0 < buf.length / T.size :=
        Nat.div_pos (Nat.le_of_dvd (List.length_pos_iff.mpr hne) hpasses.2.1) hsize
      omega
    · exact h.ends_of_stop hreached hlt hstop

end Scans

/-! ### Records without gaps -/

/-- The bytes of the file from the offset on. -/
def available (T : Table) : Nat := T.file.content.length - T.offset

def record (T : Table) (k : Nat) : Bytes := (T.file.content.drop (T.offset + T.size * k)).take T.size

/-- The records follow one another, and the index can get to the count. -/
structure Dense (T : Table) : Prop where
  size_pos : 0 < T.size
  chunk_pos : 0 < T.chunk
  stride : T.stride = T.size
  count_lt : T.count < T.width
  offset_lt : T.offset < 2 ^ 64

namespace Dense

/-- Where the file still has something, the piece is what it has there. -/
theorem bytes_eq (h : Dense T) (hoffset : T.offset < 2 ^ 63) (hi : T.size * i ≤ T.available) :
    T.bytes i = some ((T.file.content.drop (T.offset + T.size * i)).take (T.size * min T.chunk (T.count - i))) := by
  have hsize := T.file.size_lt
  rw [available] at hi
  rw [bytes, h.stride, Nat.mul_comm i, Nat.mod_eq_of_lt (by omega), File.bytes, if_neg (by omega)]

theorem length_eq (h : Dense T) (hoffset : T.offset < 2 ^ 63) (hi : T.size * i ≤ T.available)
    (hbuf : T.bytes i = some buf) :
    buf.length = min (T.size * min T.chunk (T.count - i)) (T.available - T.size * i) := by
  rw [h.bytes_eq hoffset hi] at hbuf
  cases hbuf
  rw [List.length_take, List.length_drop, available]
  omega

theorem piece_record (h : Dense T) (hoffset : T.offset < 2 ^ 63) (hi : T.size * i ≤ T.available)
    (hbuf : T.bytes i = some buf) (j : Nat) (hj : j < buf.length / T.size) :
    (buf.drop (T.size * j)).take T.size = T.record (i + j) := by
  have hle : T.size * j + T.size ≤ buf.length := by
    rw [← Nat.mul_succ]
    exact Nat.le_trans (Nat.mul_le_mul_left _ hj) (Nat.mul_div_le _ _)
  have hfit := Nat.le_trans hle (length_bytes hbuf)
  rw [h.bytes_eq hoffset hi] at hbuf
  cases hbuf
  rw [record_of_bytes hfit, record, Nat.mul_add, Nat.add_assoc]

/-- The records of a piece are those of the table. -/
theorem records_eq (h : Dense T) (hoffset : T.offset < 2 ^ 63) (hi : T.size * i ≤ T.available)
    (hbuf : T.bytes i = some buf) :
    records T.size (buf.length / T.size) buf = (List.range' i (buf.length / T.size)).map T.record := by
  rw [records, List.range'_eq_map_range, List.map_map]
  exact List.map_congr_left fun j hj => h.piece_record hoffset hi hbuf j (List.mem_range.mp hj)

theorem sought_iff (h : Dense T) (hoffset : T.offset < 2 ^ 63) (hi : T.size * i ≤ T.available)
    (hbuf : T.bytes i = some buf) :
    (∀ record ∈ records T.size (buf.length / T.size) buf, T.sought record = false) ↔
      ∀ k, i ≤ k → k < i + buf.length / T.size → T.sought (T.record k) = false := by
  have hrecord := h.piece_record hoffset hi hbuf
  constructor
  · intro hall k hk hlt
    obtain ⟨j, rfl⟩ := Nat.exists_eq_add_of_le hk
    rw [← hrecord j (by omega)]
    exact hall _ (mem_records.mpr ⟨j, by omega, rfl⟩)
  · intro hall r hr
    obtain ⟨j, hj, rfl⟩ := mem_records.mp hr
    rw [hrecord j hj]
    exact hall (i + j) (Nat.le_add_right i j) (by omega)

/-- What has been read is in the file, and nothing sought is in it. -/
theorem reached (h : Dense T) (hoffset : T.offset < 2 ^ 63) (hreached : T.Reached i) :
    T.size * i ≤ T.available ∧ ∀ k < i, T.sought (T.record k) = false := by
  induction hreached with
  | first => exact ⟨Nat.zero_le _, fun k hk => absurd hk (Nat.not_lt_zero k)⟩
  | @next i buf _ hlt hpasses ih =>
    obtain ⟨hbuf, hdvd, hall⟩ := hpasses
    rw [(next_eq h.count_lt hlt hbuf).1]
    have hlength := h.length_eq hoffset ih.1 hbuf
    refine ⟨?_, fun k hk => ?_⟩
    · rw [Nat.mul_add, Nat.mul_div_cancel' hdvd]
      omega
    · by_cases hki : k < i
      · exact ih.2 k hki
      · exact (h.sought_iff hoffset ih.1 hbuf).mp hall k (Nat.le_of_not_lt hki) hk

/-- Without anything to stop it the scan gets to the end of the file. -/
theorem reached_end (h : Dense T) (hoffset : T.offset < 2 ^ 63) (hcount : T.available < T.count * T.size)
    (hdvd : T.size ∣ T.available) (hall : ∀ k < T.available / T.size, T.sought (T.record k) = false) :
    T.Reached (T.available / T.size) := by
  have hrun : ∀ n i, T.Reached i → T.available - T.size * i ≤ n → T.Reached (T.available / T.size) := by
    intro n
    induction n with
    | zero =>
      intro i hreached hle
      have hi := (h.reached hoffset hreached).1
      have heq : T.available = T.size * i := by omega
      rw [heq, Nat.mul_div_cancel_left i h.size_pos]
      exact hreached
    | succ n ih =>
      intro i hreached hle
      have hi := (h.reached hoffset hreached).1
      by_cases hlast : T.available = T.size * i
      · rw [hlast, Nat.mul_div_cancel_left i h.size_pos]
        exact hreached
      have hlt : i < T.count := by
        refine Nat.lt_of_mul_lt_mul_left (a := T.size) ?_
        rw [Nat.mul_comm T.size T.count]
        exact Nat.lt_of_le_of_lt hi hcount
      have hbuf := h.bytes_eq hoffset hi
      have hlength := h.length_eq hoffset hi hbuf
      generalize (T.file.content.drop (T.offset + T.size * i)).take (T.size * min T.chunk (T.count - i)) =
        buf at hbuf hlength
      have hwhole : T.size ∣ buf.length := by
        rw [hlength]
        rcases Nat.le_total (T.size * min T.chunk (T.count - i)) (T.available - T.size * i) with hcase | hcase
        · rw [Nat.min_eq_left hcase]
          exact Nat.dvd_mul_right _ _
        · rw [Nat.min_eq_right hcase]
          exact Nat.dvd_sub hdvd (Nat.dvd_mul_right _ _)
      have hmin : 0 < min T.chunk (T.count - i) := Nat.lt_min.mpr ⟨h.chunk_pos, by omega⟩
      have hpos : 0 < buf.length := by
        have hchunk := Nat.mul_pos h.size_pos hmin
        omega
      have hbound : i + buf.length / T.size ≤ T.available / T.size := by
        rw [Nat.le_div_iff_mul_le h.size_pos, Nat.add_mul, Nat.div_mul_cancel hwhole, Nat.mul_comm i]
        omega
      have hpasses : T.Passes i buf :=
        ⟨hbuf, hwhole, (h.sought_iff hoffset hi hbuf).mpr fun k _ hk => hall k (Nat.lt_of_lt_of_le hk hbound)⟩
      have hnext := Reached.next hreached hlt hpasses
      rw [(next_eq h.count_lt hlt hbuf).1] at hnext
      refine ih _ hnext ?_
      rw [Nat.mul_add, Nat.mul_div_cancel' hwhole]
      omega
  exact hrun _ 0 .first (Nat.le_refl _)

/-- Such a scan ends exactly if the table is in the file, or the offset is refused, or the file ends within a record, or
    one of the records that it has is sought. -/
theorem inReach_iff (h : Dense T) : T.InReach ↔ T.count * T.size ≤ T.available ∨ 2 ^ 63 ≤ T.offset ∨
    ¬ T.size ∣ T.available ∨ ∃ k < T.available / T.size, T.sought (T.record k) = true := by
  constructor
  · rintro ⟨hfull, -⟩
    refine Classical.byContradiction fun hnot => ?_
    rw [not_or, not_or, not_or, Nat.not_le, Nat.not_le, Classical.not_not] at hnot
    obtain ⟨hcount, hoffset, hdvd, hall⟩ := hnot
    have hall' : ∀ k < T.available / T.size, T.sought (T.record k) = false := fun k hk =>
      Bool.eq_false_iff.mpr fun hc => hall ⟨k, hk, hc⟩
    have hreached := h.reached_end hoffset hcount hdvd hall'
    have hi : T.size * (T.available / T.size) ≤ T.available := Nat.mul_div_le _ _
    have hlt : T.available / T.size < T.count := (Nat.div_lt_iff_lt_mul h.size_pos).mpr hcount
    refine hfull _ hreached hlt ?_
    rw [h.bytes_eq hoffset hi, Nat.mul_div_cancel' hdvd, List.drop_of_length_le, List.take_nil]
    rw [available]
    omega
  · intro hcases
    refine ⟨fun i hreached hlt hempty => ?_, Or.inl h.count_lt⟩
    by_cases hneg : 2 ^ 63 ≤ T.offset
    · -- nothing is read there at all
      have hrefused : T.bytes 0 = none := by
        rw [bytes, Nat.zero_mul, Nat.add_zero, Nat.mod_eq_of_lt h.offset_lt, File.bytes, if_pos hneg]
      have hzero : i = 0 := by
        clear hempty hlt
        induction hreached with
        | first => rfl
        | next _ _ hpasses ih =>
          have hsome := hpasses.1
          rw [ih, hrefused] at hsome
          cases hsome
      rw [hzero, hrefused] at hempty
      cases hempty
    · have hoffset := Nat.lt_of_not_le hneg
      obtain ⟨hi, hall⟩ := h.reached hoffset hreached
      have hlength := h.length_eq hoffset hi hempty
      have hmin : 0 < min T.chunk (T.count - i) := Nat.lt_min.mpr ⟨h.chunk_pos, by omega⟩
      have hchunk := Nat.mul_pos h.size_pos hmin
      rw [List.length_nil] at hlength
      have heq : T.available = T.size * i := by omega
      rw [heq] at hcases
      rcases hcases with hcount | hrefused | hdvd | ⟨k, hk, hsought⟩
      · rw [Nat.mul_comm] at hcount
        exact absurd (Nat.le_of_mul_le_mul_left hcount h.size_pos) (Nat.not_le.mpr hlt)
      · exact hneg hrefused
      · exact hdvd (Nat.dvd_mul_right _ _)
      · rw [Nat.mul_div_cancel_left i h.size_pos] at hk
        rw [hall k hk] at hsought
        cases hsought

end Dense

end Table

end Glog.Symbolize
