import Glog.Symbolize.Object

/-! # Reading

`ReadFromOffset` never gives more than was asked for, whatever `pread` does. From a file it gives what the file holds
at the offset, in however many pieces. -/

namespace Glog.Symbolize
open Run

/-! ### Any reader -/

section
variable {pread : Pread} {count offset call : Nat} {left : Nat} {buf : Bytes}

theorem length_readLoop (hbuf : buf.length ≤ count) :
    ∀ bytes, (readLoop pread count offset left buf call).bytes = some bytes → bytes.length ≤ count := by
  induction left generalizing buf call with
  | zero =>
    intro bytes h
    cases h
    exact hbuf
  | succ left ih =>
    rw [readLoop]
    split
    · cases hread : pread.read call (count - buf.length) ((offset + buf.length) % 2 ^ 64) with
      | none => exact fun bytes h => nomatch h
      | some bytes =>
        cases bytes with
        | nil =>
          intro bytes h
          cases h
          exact hbuf
        | cons b bytes =>
          have hlength := pread.length_le hread
          refine ih ?_
          rw [List.length_append]
          omega
    · intro bytes h
      cases h
      exact hbuf

/-- The assertions of `ReadFromOffset` hold for a size that a buffer can have. -/
theorem readFromOffset_ok (hcount : count < 2 ^ 63) :
    readFromOffset pread count offset call = .ok (readLoop pread count offset count [] call) := by
  have hlength := @length_readLoop pread count offset call count [] (Nat.zero_le count)
  have hle : count ≤ 2 ^ 63 - 1 := Nat.le_sub_one_of_lt hcount
  unfold readFromOffset
  rw [safeAssert_pos hle]
  dsimp only [bind, Except.bind]
  cases hbytes : (readLoop pread count offset count [] call).bytes with
  | none => rfl
  | some bytes =>
    dsimp only
    rw [safeAssert_pos (hlength bytes hbytes)]
    rfl

theorem readFromOffsetExact_ok (hcount : count < 2 ^ 63) (pread : Pread) (offset call : Nat) :
    ∃ read, readFromOffsetExact pread count offset call = .ok read := by
  unfold readFromOffsetExact
  rw [readFromOffset_ok hcount]
  dsimp only [Bind.bind, Except.bind]
  split
  · exact ⟨_, rfl⟩
  · exact ⟨_, rfl⟩

end

/-! ### A file -/

/-- The content of a file; an `off_t` counts its bytes. -/
structure File where
  content : Bytes
  size_lt : content.length < 2 ^ 63

/-- So many bytes from an offset, as far as there are any; `pread` refuses a negative offset. -/
def File.bytes (file : File) (count offset : Nat) : Option Bytes :=
  if 2 ^ 63 ≤ offset then none else some ((file.content.drop offset).take count)

/-- `pread` returns what the file holds, at least a byte where there is one. -/
structure Holds (file : File) (pread : Pread) : Prop where
  refused : ∀ call count offset, 2 ^ 63 ≤ offset → pread.read call count offset = none
  held : ∀ call count offset, 0 < count → offset < 2 ^ 63 → ∃ n,
    pread.read call count offset = some ((file.content.drop offset).take n) ∧ n ≤ count ∧
      (offset < file.content.length → 0 < n)

/-- The one that returns as much as there is. -/
def File.pread (file : File) : Pread where
  read _ count offset := file.bytes count offset
  length_le {call count offset bytes} h := by
    rw [File.bytes] at h
    split at h
    · cases h
    · cases h
      exact List.length_take_le _ _

theorem holds_pread (file : File) : Holds file file.pread where
  refused _ _ _ h := if_pos h
  held _ count _ hpos hlt := ⟨count, if_neg (Nat.not_le.mpr hlt), Nat.le_refl count, fun _ => hpos⟩

/-- One that returns so many bytes at most. -/
def File.slowly (file : File) (most : Nat) : Pread where
  read _ count offset := file.bytes (min count most) offset
  length_le h := by
    rw [File.bytes] at h
    split at h
    · cases h
    · cases h
      exact Nat.le_trans (List.length_take_le _ _) (Nat.min_le_left _ _)

theorem holds_slowly (file : File) {most : Nat} (hmost : 0 < most) : Holds file (file.slowly most) where
  refused _ _ _ h := if_pos h
  held _ count _ hpos hlt :=
    ⟨min count most, if_neg (Nat.not_le.mpr hlt), Nat.min_le_left _ _, fun _ => Nat.lt_min.mpr ⟨hpos, hmost⟩⟩

/-- A file with a symbol table of 40 symbols, of which only the last one is defined, and its strings. -/
def tableFile : File where
  content :=
    [0x7f, 'E'.toUInt8, 'L'.toUInt8, 'F'.toUInt8] ++ List.replicate 36 0 ++ 64 :: List.replicate 19 0 ++ 2 ::
      List.replicate 3 0 ++
      -- the header of the symbol table, and that of the strings
      List.replicate 4 0 ++ 2 :: List.replicate 19 0 ++ 192 :: List.replicate 7 0 ++ 192 :: 3 :: List.replicate 6 0 ++
        1 :: List.replicate 15 0 ++ 24 :: List.replicate 7 0 ++
      List.replicate 4 0 ++ 3 :: List.replicate 19 0 ++ 128 :: 4 :: List.replicate 6 0 ++ 3 :: List.replicate 31 0 ++
      -- the symbols, the last one at 0x1000
      List.replicate 936 0 ++ [1, 0, 0, 0, 0, 0, 1, 0, 0, 16, 0, 0, 0, 0, 0, 0, 16, 0, 0, 0, 0, 0, 0, 0] ++
      [0, 'f'.toUInt8, 0]
  size_lt := by decide +kernel

section
variable {file : File} {pread : Pread} {count offset call left : Nat} {buf : Bytes}

/-- A piece behind what has been read. -/
theorem held_append {content : Bytes} (hbuf : buf = (content.drop offset).take buf.length) (n : Nat) :
    buf ++ (content.drop (offset + buf.length)).take n = (content.drop offset).take (buf.length + n) := by
  rw [List.take_add, ← hbuf, List.drop_drop]

/-- Nothing is left behind what has been read. -/
theorem held_end {content : Bytes} (hbuf : buf = (content.drop offset).take buf.length) (hlength : buf.length ≤ count)
    (hend : content.length ≤ offset + buf.length) : buf = (content.drop offset).take count := by
  have hdrop : (content.drop offset).length ≤ buf.length := by
    rw [List.length_drop]
    omega
  rw [List.take_of_length_le hdrop] at hbuf
  rw [List.take_of_length_le (Nat.le_trans hdrop hlength), ← hbuf]

/-- Reading goes on behind what has been read. -/
theorem readLoop_held (hholds : Holds file pread) (hoffset : offset < 2 ^ 63) (hleft : count ≤ buf.length + left)
    (hlength : buf.length ≤ count) (hbuf : buf = (file.content.drop offset).take buf.length) :
    ∃ call', readLoop pread count offset left buf call = ⟨some ((file.content.drop offset).take count), call'⟩ := by
  induction left generalizing buf call with
  | zero =>
    have heq : buf.length = count := by omega
    rw [heq] at hbuf
    exact ⟨call, by rw [readLoop, ← hbuf]⟩
  | succ left ih =>
    rw [readLoop]
    by_cases hlt : buf.length < count
    · rw [if_pos hlt]
      have hsize := file.size_lt
      have hinside : buf.length = 0 ∨ offset + buf.length ≤ file.content.length := by
        have hle := congrArg List.length hbuf
        rw [List.length_take, List.length_drop] at hle
        omega
      have hsmall : offset + buf.length < 2 ^ 63 := by omega
      rw [Nat.mod_eq_of_lt (by omega)]
      obtain ⟨n, hread, hn, hpos⟩ := hholds.held call (count - buf.length) (offset + buf.length) (by omega) hsmall
      rw [hread]
      cases hbytes : (file.content.drop (offset + buf.length)).take n with
      | nil =>
        have hend : file.content.length ≤ offset + buf.length := by
          have hzero := congrArg List.length hbytes
          rw [List.length_take, List.length_drop, List.length_nil] at hzero
          omega
        refine ⟨call + 1, ?_⟩
        dsimp only
        rw [← held_end hbuf hlength hend]
      | cons b bytes =>
        have happend := held_append hbuf n
        dsimp only
        rw [← hbytes, happend]
        have hmore : buf.length < ((file.content.drop offset).take (buf.length + n)).length := by
          rw [← happend, hbytes, List.length_append, List.length_cons]
          omega
        have hle : ((file.content.drop offset).take (buf.length + n)).length ≤ buf.length + n := List.length_take_le _ _
        refine ih (by omega) (by omega) ?_
        rw [List.length_take, ← List.take_eq_take_min]
    · rw [if_neg hlt]
      have heq : buf.length = count := by omega
      rw [heq] at hbuf
      exact ⟨call, by rw [← hbuf]⟩

/-- What `ReadFromOffset` gives is what the file holds. -/
theorem bytes_readLoop (hholds : Holds file pread) (hpos : 0 < count) (hoffset : offset < 2 ^ 64) :
    (readLoop pread count offset count [] call).bytes = file.bytes count offset := by
  rw [File.bytes]
  by_cases hneg : 2 ^ 63 ≤ offset
  · rw [if_pos hneg]
    obtain ⟨left, rfl⟩ := Nat.exists_eq_add_of_lt hpos
    rw [Nat.zero_add, readLoop, if_pos (show ([] : Bytes).length < left + 1 from Nat.succ_pos left), List.length_nil,
      Nat.add_zero offset, Nat.mod_eq_of_lt hoffset, hholds.refused _ _ _ hneg]
  · rw [if_neg hneg]
    obtain ⟨call', hloop⟩ := @readLoop_held file pread count offset call count [] hholds (Nat.lt_of_not_le hneg)
      (Nat.le_add_left count 0) (Nat.zero_le count) rfl
    rw [hloop]

end

/-! ### Records -/

section
variable {size count : Nat} {buf : Bytes}

theorem mem_records {record : Bytes} : record ∈ records size count buf ↔ ∃ j < count,
    (buf.drop (size * j)).take size = record := by
  rw [records, List.mem_map]
  constructor
  · rintro ⟨j, hj, rfl⟩
    exact ⟨j, List.mem_range.mp hj, rfl⟩
  · rintro ⟨j, hj, rfl⟩
    exact ⟨j, List.mem_range.mpr hj, rfl⟩

/-- A whole record of what has been read is one of the file. -/
theorem record_of_bytes {content : Bytes} {offset length j : Nat} (hj : size * j + size ≤ length) :
    ((((content.drop offset).take length).drop (size * j)).take size) = (content.drop (offset + size * j)).take size := by
  rw [List.drop_take, List.take_take, Nat.min_eq_left (by omega), List.drop_drop]

end

end Glog.Symbolize
