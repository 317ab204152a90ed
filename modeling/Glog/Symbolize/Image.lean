import Glog.Symbolize.Maps

/-! # The memory of the process

What `/proc/self/mem` shows, and the base address that the headers in the memory give. -/

namespace Glog.Symbolize

/-- The bytes that are mapped, by their addresses; those of a program are below the middle. -/
structure Image where
  byte : Nat → Option UInt8
  high : ∀ a, 2 ^ 63 ≤ a → byte a = none

namespace Image

/-- The bytes from an address on, up to a number of them, or to the first one that is not mapped. -/
def run (image : Image) : Nat → Nat → Bytes
  | _, 0 => []
  | a, n + 1 =>
    match image.byte a with
    | none => []
    | some b => b :: image.run (a + 1) n

/-- The bytes of a record, if all of them are mapped. -/
def bytes (image : Image) (count a : Nat) : Option Bytes :=
  if (image.run a count).length = count then some (image.run a count) else none

/-- Calls of `pread` get something of what is there, and fail where nothing is mapped. -/
structure Shown (image : Image) (mem : Pread) : Prop where
  unmapped : ∀ call count a, 0 < count → image.byte a = none → mem.read call count a = none
  mapped : ∀ call count a, 0 < count → image.byte a ≠ none → ∃ n, 0 < n ∧ n ≤ count ∧
    mem.read call count a = some (image.run a n)

/-- The base address by a program header, if it is that of the segment with the ELF header in it. -/
def segment (image : Image) (startAddress : UInt64) (phoff i : Nat) : Option UInt64 :=
  (image.bytes 56 ((startAddress.toNat + phoff + i * 56) % 2 ^ 64)).bind fun phdr =>
    if pType phdr = ptLoad ∧ pOffset phdr = 0 then some (startAddress - UInt64.ofNat (pVaddr phdr)) else none

/-- What the ELF header at the address tells of the base address: it is 0 for a program at fixed addresses, and
otherwise that of the first segment with the header in it. Where none is found it is the address of the header. -/
def baseAddress (image : Image) (startAddress : UInt64) : Option UInt64 :=
  (image.bytes 64 startAddress.toNat).bind fun ehdr =>
    if eIdentMagic ehdr ≠ elfMag then none
    else if eType ehdr = etExec then some 0
    else if eType ehdr = etDyn then
      some (((List.range' 0 (ePhnum ehdr)).findSome? (image.segment startAddress (ePhoff ehdr))).getD startAddress)
    else none

/-! ### A record is read -/

section
variable {image : Image} {mem : Pread} {a count m n left call : Nat} {buf : Bytes}

theorem run_length_le : (image.run a n).length ≤ n := by
  induction n generalizing a with
  | zero => exact Nat.le_refl 0
  | succ n ih =>
    rw [run]
    cases image.byte a with
    | none => exact Nat.zero_le _
    | some b => exact Nat.succ_le_succ ih

theorem run_of_unmapped (h : image.byte a = none) : image.run a n = [] := by
  cases n with
  | zero => rfl
  | succ n => rw [run, h]

theorem run_ne_nil (hpos : 0 < n) (h : image.byte a ≠ none) : image.run a n ≠ [] := by
  obtain ⟨n, rfl⟩ := Nat.exists_eq_add_of_lt hpos
  obtain ⟨b, hb⟩ := Option.ne_none_iff_exists'.mp h
  rw [Nat.zero_add, run, hb]
  exact List.cons_ne_nil _ _

/-- A part that is full is followed by the rest. -/
theorem run_add (h : (image.run a m).length = m) : image.run a (m + n) = image.run a m ++ image.run (a + m) n := by
  induction m generalizing a with
  | zero => rw [Nat.zero_add]; rfl
  | succ m ih =>
    rw [run] at h
    rw [Nat.add_right_comm, run, run]
    cases hbyte : image.byte a with
    | none =>
      rw [hbyte] at h
      cases h
    | some b =>
      rw [hbyte] at h
      dsimp only
      rw [ih (Nat.succ.inj h), List.cons_append, Nat.add_assoc, Nat.add_comm 1]

/-- The part that is mapped. -/
theorem run_length_self : image.run a (image.run a n).length = image.run a n := by
  induction n generalizing a with
  | zero => rfl
  | succ n ih =>
    rw [run]
    cases hbyte : image.byte a with
    | none => rfl
    | some b =>
      dsimp only
      rw [List.length_cons, run, hbyte]
      dsimp only
      rw [ih]

/-- Nothing is mapped in the upper half. -/
theorem run_inside (h : (image.run a m).length = m) : m = 0 ∨ a + m ≤ 2 ^ 63 := by
  induction m generalizing a with
  | zero => exact Or.inl rfl
  | succ m ih =>
    rw [run] at h
    cases hbyte : image.byte a with
    | none =>
      rw [hbyte] at h
      cases h
    | some b =>
      have hlow : ¬ 2 ^ 63 ≤ a := fun hhigh => by
        rw [image.high a hhigh] at hbyte
        cases hbyte
      rw [hbyte] at h
      rcases ih (Nat.succ.inj h) with rfl | hle
      · exact Or.inr (by omega)
      · exact Or.inr (by omega)

/-- What has been read so far is what is mapped, and the loop goes on behind it. -/
theorem readLoop_image (hshown : image.Shown mem) (ha : a < 2 ^ 64) (hleft : count ≤ buf.length + left)
    (hlength : buf.length ≤ count)
    (hbuf : image.run a buf.length = buf) : (readLoop mem count a left buf call).bytes = image.bytes count a := by
  induction left generalizing buf call with
  | zero =>
    have heq : buf.length = count := Nat.le_antisymm hlength hleft
    rw [readLoop, bytes, ← heq, hbuf, if_pos rfl]
  | succ left ih =>
    by_cases hless : buf.length < count
    · have haddress : (a + buf.length) % 2 ^ 64 = a + buf.length := by
        rcases run_inside (congrArg List.length hbuf) with hzero | hinside
        · rw [hzero, Nat.add_zero, Nat.mod_eq_of_lt ha]
        · exact Nat.mod_eq_of_lt (by omega)
      rw [readLoop, if_pos hless, haddress]
      by_cases hbyte : image.byte (a + buf.length) = none
      · have hrun : image.run a count = buf := by
          obtain ⟨n, rfl⟩ := Nat.exists_eq_add_of_le hlength
          rw [run_add (congrArg List.length hbuf), hbuf, run_of_unmapped hbyte, List.append_nil]
        rw [hshown.unmapped _ _ _ (Nat.sub_pos_of_lt hless) hbyte, bytes, hrun, if_neg (Nat.ne_of_lt hless)]
      · obtain ⟨n, hpos, hle, hread⟩ := hshown.mapped call (count - buf.length) _ (Nat.sub_pos_of_lt hless) hbyte
        have hshort := @run_length_le image (a + buf.length) n
        have hself := @run_length_self image (a + buf.length) n
        rw [hread]
        cases hpiece : image.run (a + buf.length) n with
        | nil => exact absurd hpiece (run_ne_nil hpos hbyte)
        | cons b piece =>
          rw [hpiece] at hshort hself
          have hsum : (buf ++ b :: piece).length = buf.length + (b :: piece).length := List.length_append
          have hone : 0 < (b :: piece).length := Nat.succ_pos _
          dsimp only
          refine ih (by omega) (by omega) ?_
          rw [hsum, run_add (congrArg List.length hbuf), hbuf, hself]
    · have heq : buf.length = count := by omega
      rw [readLoop, if_neg hless, bytes, ← heq, hbuf, if_pos rfl]

theorem readFromOffsetExact_image (hshown : image.Shown mem) (ha : a < 2 ^ 64) (hcount : count < 2 ^ 63) : ∃ call',
    readFromOffsetExact mem count a call = .ok ⟨image.bytes count a, call'⟩ := by
  have hread := @readFromOffset_ok mem count a call hcount
  have hbytes := @readLoop_image image mem a count count call [] hshown ha (by simp) (Nat.zero_le _) rfl
  refine ⟨(readLoop mem count a count [] call).call, ?_⟩
  rw [readFromOffsetExact, hread]
  dsimp only [Bind.bind, Except.bind]
  rw [hbytes]
  by_cases hfull : (image.run a count).length = count
  · have hsome : image.bytes count a = some (image.run a count) := if_pos hfull
    rw [hsome, sizeOfLength, if_pos hfull, ← hsome, ← hbytes]
    rfl
  · have hnone : image.bytes count a = none := if_neg hfull
    rw [hnone, sizeOfLength, if_neg (by omega)]
    rfl

/-- The one that returns as much as there is. -/
def pread (image : Image) : Pread where
  read _ count a := if count = 0 then some [] else if image.byte a = none then none else some (image.run a count)
  length_le h := by
    split at h
    · cases h
      exact Nat.zero_le _
    · split at h
      · cases h
      · cases h
        exact run_length_le

theorem shown_pread (image : Image) : image.Shown image.pread where
  unmapped _ _ _ hpos hbyte := (if_neg (Nat.ne_of_gt hpos)).trans (if_pos hbyte)
  mapped _ count _ hpos hbyte := ⟨count, hpos, Nat.le_refl count, (if_neg (Nat.ne_of_gt hpos)).trans (if_neg hbyte)⟩

/-! ### The base address -/

variable {startAddress : UInt64} {phoff i : Nat}

theorem segmentLoop_image (hshown : image.Shown mem) : ∃ call', segmentLoop mem startAddress phoff left i call =
    .ok (((List.range' i left).findSome? (image.segment startAddress phoff)).getD startAddress, call') := by
  induction left generalizing i call with
  | zero => exact ⟨call, rfl⟩
  | succ left ih =>
    obtain ⟨call', hread⟩ :=
      @readFromOffsetExact_image image mem ((startAddress.toNat + phoff + i * 56) % 2 ^ 64) 56 call hshown
      (Nat.mod_lt _ (by decide)) (by decide)
    rw [segmentLoop, hread, List.range'_succ, List.findSome?_cons, segment]
    dsimp only [Bind.bind, Except.bind]
    cases hbytes : image.bytes 56 ((startAddress.toNat + phoff + i * 56) % 2 ^ 64) with
    | none =>
      rw [if_neg (fun h => Bool.false_ne_true h.1)]
      exact ih
    | some phdr =>
      dsimp only [Option.bind, Option.getD]
      by_cases hload : pType phdr = ptLoad ∧ pOffset phdr = 0
      · rw [if_pos hload, if_pos ⟨rfl, hload⟩]
        exact ⟨call', rfl⟩
      · rw [if_neg hload, if_neg (fun h => hload h.2)]
        exact ih

/-- The base address that is determined is the one that the headers tell. -/
theorem readBaseAddress_image (hshown : image.Shown mem) (flagsStart : Bytes) (startAddress base : UInt64)
    (call : Nat) : ∃ call',
    readBaseAddress mem flagsStart startAddress base call =
      .ok ((if flagsStart.head? = some 'r'.toUInt8 then image.baseAddress startAddress else none).getD base, call') := by
  unfold readBaseAddress
  split
  · obtain ⟨call', hread⟩ :=
      @readFromOffsetExact_image image mem startAddress.toNat 64 call hshown startAddress.toNat_lt (by decide)
    rw [hread, baseAddress]
    dsimp only [Bind.bind, Except.bind]
    cases image.bytes 64 startAddress.toNat with
    | none => exact ⟨call', if_neg fun h => Bool.false_ne_true h.1⟩
    | some ehdr =>
      dsimp only [Option.bind, Option.getD]
      by_cases hmagic : eIdentMagic ehdr = elfMag
      · rw [if_pos ⟨rfl, hmagic⟩, if_neg (not_not_intro hmagic)]
        split
        · exact ⟨call', rfl⟩
        · split
          · exact segmentLoop_image hshown
          · exact ⟨call', rfl⟩
      · rw [if_neg (fun h => hmagic h.2), if_pos hmagic]
        exact ⟨call', rfl⟩
  · exact ⟨call, rfl⟩

end

end Image

end Glog.Symbolize
