import Glog.Symbolize.Table

/-! # The two scans

What a turn of `GetSectionHeaderByType` and of `FindSymbol` does with the piece that it reads, for any `pread`; and
that over a file both scan a table. -/

namespace Glog.Symbolize
open Run

/-! ### Section headers -/

section
variable {pread : Pread} {shNum shOffset type : Nat} {s : Cursor}

/-- The piece of the section headers that is read at a cursor. -/
def sectionRead (pread : Pread) (shNum shOffset : Nat) (s : Cursor) : Read :=
  readLoop pread (64 * min 16 (shNum - s.i)) ((shOffset + s.i * 64) % 2 ^ 64) (64 * min 16 (shNum - s.i)) [] s.call

theorem sectionTurn_past (h : shNum ≤ s.i) : sectionTurn pread shNum shOffset type s = .ok (.leave ⟨none, s.call⟩) :=
  if_neg (Nat.not_lt.mpr h)

/-- A piece with a part of a header fails; without one it is searched, and the scan goes on behind it. -/
theorem sectionTurn_eq (h : s.i < shNum) : sectionTurn pread shNum shOffset type s =
    match (sectionRead pread shNum shOffset s).bytes with
    | none => .ok (.leave ⟨none, (sectionRead pread shNum shOffset s).call⟩)
    | some buf =>
      if buf.length % 64 = 0 then
        match (records 64 (buf.length / 64) buf).find? fun record => (shdr record).shType == type with
        | some record => .ok (.leave ⟨some (shdr record), (sectionRead pread shNum shOffset s).call⟩)
        | none => .ok (.again ⟨s.i + buf.length / 64, (sectionRead pread shNum shOffset s).call⟩)
      else .error .safeAssert := by
  have hcount : (if 16 * 64 > (shNum - s.i) * 64 then (shNum - s.i) * 64 else 16 * 64) = 64 * min 16 (shNum - s.i) := by
    split <;> omega
  have hsmall : 64 * min 16 (shNum - s.i) < 2 ^ 63 := by omega
  have hlength := @length_readLoop pread (64 * min 16 (shNum - s.i)) ((shOffset + s.i * 64) % 2 ^ 64) s.call
    (64 * min 16 (shNum - s.i)) [] (Nat.zero_le _)
  unfold sectionTurn
  rw [if_pos h]
  dsimp only
  rw [hcount, readFromOffset_ok hsmall]
  change (match (sectionRead pread shNum shOffset s).bytes with | none => _ | some buf => _) = _
  change ∀ bytes, (sectionRead pread shNum shOffset s).bytes = some bytes → _ at hlength
  cases hbytes : (sectionRead pread shNum shOffset s).bytes with
  | none => rfl
  | some buf =>
    dsimp only
    have hfew : buf.length / 64 ≤ 16 := Nat.div_le_of_le_mul (Nat.le_trans (hlength buf hbytes) (by omega))
    by_cases hwhole : buf.length % 64 = 0
    · rw [if_pos hwhole, safeAssert_pos hwhole, safeAssert_pos hfew]
      change (match (records 64 (buf.length / 64) buf).find? _ with | some record => _ | none => _) = _
      cases (records 64 (buf.length / 64) buf).find? fun record => (shdr record).shType == type with
      | some record => rfl
      | none => rfl
    · rw [if_neg hwhole, safeAssert_neg hwhole]
      rfl

end

/-! ### Symbols -/

section
variable {pread : Pread} {pc symbolOffset numSymbols : Nat} {out : Bytes} {strtab symtab : Shdr} {s : Cursor}

/-- The piece of the symbol table that is read at a cursor. -/
def symbolRead (pread : Pread) (symtab : Shdr) (numSymbols : Nat) (s : Cursor) : Read :=
  readLoop pread (24 * min 32 (numSymbols - s.i)) ((symtab.shOffset + s.i * symtab.shEntsize) % 2 ^ 64)
    (24 * min 32 (numSymbols - s.i)) [] s.call

theorem symbolTurn_past (h : numSymbols ≤ s.i) :
    symbolTurn pread pc out symbolOffset strtab symtab numSymbols s = .ok (.leave ⟨false, out, s.call⟩) :=
  if_neg (Nat.not_lt.mpr h)

/-- Here an error of `pread` fails as well: -1 is no multiple of the size of a symbol. -/
theorem symbolTurn_eq (h : s.i < numSymbols) : symbolTurn pread pc out symbolOffset strtab symtab numSymbols s =
    match (symbolRead pread symtab numSymbols s).bytes with
    | none => .error .safeAssert
    | some buf =>
      if buf.length % 24 = 0 then
        match (records 24 (buf.length / 24) buf).find? fun record => contains pc symbolOffset (sym record) with
        | some record =>
          (readName pread out strtab (sym record) (symbolRead pread symtab numSymbols s).call).map Turn.leave
        | none => .ok (.again ⟨(s.i + buf.length / 24) % 2 ^ 32, (symbolRead pread symtab numSymbols s).call⟩)
      else .error .safeAssert := by
  have hsmall : 24 * min 32 (numSymbols - s.i) < 2 ^ 63 := by omega
  have hlength := @length_readLoop pread (24 * min 32 (numSymbols - s.i))
    ((symtab.shOffset + s.i * symtab.shEntsize) % 2 ^ 64) s.call (24 * min 32 (numSymbols - s.i)) [] (Nat.zero_le _)
  unfold symbolTurn
  rw [if_pos h]
  dsimp only
  have hread : readFromOffset pread (24 * min 32 (numSymbols - s.i)) ((symtab.shOffset + s.i * symtab.shEntsize) % 2 ^ 64)
      s.call = .ok (symbolRead pread symtab numSymbols s) := readFromOffset_ok hsmall
  rw [hread]
  change ∀ bytes, (symbolRead pread symtab numSymbols s).bytes = some bytes → _ at hlength
  generalize symbolRead pread symtab numSymbols s = read at hlength ⊢
  obtain ⟨bytes, call⟩ := read
  dsimp only [Bind.bind, Except.bind]
  generalize hlen : sizeOfLength bytes = len
  cases bytes with
  | none =>
    have hfails : ¬ len % 24 = 0 := by
      rw [← hlen]
      decide
    rw [safeAssert_neg hfails]
  | some buf =>
    change buf.length = len at hlen
    subst len
    have hfew : buf.length / 24 ≤ min 32 (numSymbols - s.i) := Nat.div_le_of_le_mul (hlength buf rfl)
    dsimp only [Option.getD_some]
    by_cases hwhole : buf.length % 24 = 0
    · rw [if_pos hwhole, safeAssert_pos hwhole]
      dsimp only
      rw [safeAssert_pos hfew]
      dsimp only
      cases (records 24 (buf.length / 24) buf).find? fun record => contains pc symbolOffset (sym record) with
      | some record =>
        dsimp only
        cases readName pread out strtab (sym record) call with
        | error fault => rfl
        | ok found => rfl
      | none => rfl
    · rw [if_neg hwhole, safeAssert_neg hwhole]

end

/-! ### Tables of a file -/

/-- The section headers of a file; the index is a `size_t`, and is never more than their number. -/
def sectionTable (file : File) (shNum shOffset type : Nat) : Table where
  file := file
  size := 64
  chunk := 16
  count := shNum
  offset := shOffset
  stride := 64
  width := shNum + 1
  sought record := (shdr record).shType == type

/-- A symbol table of a file; the index is an `unsigned`. -/
def symbolTable (file : File) (pc symbolOffset : Nat) (symtab : Shdr) : Table where
  file := file
  size := 24
  chunk := 32
  count := symtab.shSize / symtab.shEntsize
  offset := symtab.shOffset
  stride := symtab.shEntsize
  width := 2 ^ 32
  sought record := contains pc symbolOffset (sym record)

section
variable {file : File} {pread : Pread} {shNum shOffset type pc symbolOffset call : Nat} {out : Bytes}
  {strtab symtab : Shdr}

theorem scans_sectionTable (hholds : Holds file pread) :
    (sectionTable file shNum shOffset type).Scans (sectionTurn pread shNum shOffset type) := by
  have hread : ∀ s : Cursor, s.i < shNum →
      (sectionRead pread shNum shOffset s).bytes = (sectionTable file shNum shOffset type).bytes s.i := fun s hs =>
    bytes_readLoop hholds (by omega) (Nat.mod_lt _ (by decide))
  constructor
  · intro s hs
    change shNum ≤ s.i at hs
    rw [sectionTurn_past hs]
    exact Option.some_ne_none _
  · intro s hs hstop
    change s.i < shNum at hs
    rw [sectionTurn_eq hs, hread s hs]
    cases hbytes : (sectionTable file shNum shOffset type).bytes s.i with
    | none => exact Option.some_ne_none _
    | some buf =>
      dsimp only
      by_cases hwhole : buf.length % 64 = 0
      · rw [if_pos hwhole]
        cases hfind : (records 64 (buf.length / 64) buf).find? fun record => (shdr record).shType == type with
        | some record => exact Option.some_ne_none _
        | none =>
          refine absurd ⟨hbytes, Nat.dvd_of_mod_eq_zero hwhole, fun record hrecord => ?_⟩ (hstop buf)
          exact Bool.eq_false_iff.mpr (List.find?_eq_none.mp hfind record hrecord)
      · rw [if_neg hwhole]
        exact Option.some_ne_none _
  · rintro s buf hs ⟨hbytes, hwhole, hall⟩
    refine ⟨(sectionRead pread shNum shOffset s).call, ?_⟩
    have hnone : (records 64 (buf.length / 64) buf).find? (fun record => (shdr record).shType == type) = none :=
      List.find?_eq_none.mpr fun record hrecord => Bool.eq_false_iff.mp (hall record hrecord)
    have hnext := (Table.next_eq (T := sectionTable file shNum shOffset type) (Nat.lt_succ_self shNum) hs hbytes).1
    have hmod : buf.length % 64 = 0 := Nat.mod_eq_zero_of_dvd hwhole
    change s.i < shNum at hs
    rw [hnext, sectionTurn_eq hs, hread s hs, hbytes]
    dsimp only
    rw [if_pos hmod, hnone]
    rfl

theorem scans_symbolTable (hholds : Holds file pread) : (symbolTable file pc symbolOffset symtab).Scans
    (symbolTurn pread pc out symbolOffset strtab symtab (symtab.shSize / symtab.shEntsize)) := by
  have hread : ∀ s : Cursor, s.i < symtab.shSize / symtab.shEntsize →
      (symbolRead pread symtab (symtab.shSize / symtab.shEntsize) s).bytes =
        (symbolTable file pc symbolOffset symtab).bytes s.i := fun s hs =>
    bytes_readLoop hholds (by omega) (Nat.mod_lt _ (by decide))
  constructor
  · intro s hs
    change symtab.shSize / symtab.shEntsize ≤ s.i at hs
    rw [symbolTurn_past hs]
    exact Option.some_ne_none _
  · intro s hs hstop
    change s.i < symtab.shSize / symtab.shEntsize at hs
    rw [symbolTurn_eq hs, hread s hs]
    cases hbytes : (symbolTable file pc symbolOffset symtab).bytes s.i with
    | none => exact Option.some_ne_none _
    | some buf =>
      dsimp only
      by_cases hwhole : buf.length % 24 = 0
      · rw [if_pos hwhole]
        cases hfind : (records 24 (buf.length / 24) buf).find? fun record => contains pc symbolOffset (sym record) with
        | some record =>
          dsimp only
          cases readName pread out strtab (sym record) _ with
          | error fault => exact Option.some_ne_none _
          | ok found => exact Option.some_ne_none _
        | none =>
          refine absurd ⟨hbytes, Nat.dvd_of_mod_eq_zero hwhole, fun record hrecord => ?_⟩ (hstop buf)
          exact Bool.eq_false_iff.mpr (List.find?_eq_none.mp hfind record hrecord)
      · rw [if_neg hwhole]
        exact Option.some_ne_none _
  · rintro s buf hs ⟨hbytes, hwhole, hall⟩
    refine ⟨(symbolRead pread symtab (symtab.shSize / symtab.shEntsize) s).call, ?_⟩
    have hnone : (records 24 (buf.length / 24) buf).find? (fun record => contains pc symbolOffset (sym record)) = none :=
      List.find?_eq_none.mpr fun record hrecord => Bool.eq_false_iff.mp (hall record hrecord)
    have hmod : buf.length % 24 = 0 := Nat.mod_eq_zero_of_dvd hwhole
    change s.i < symtab.shSize / symtab.shEntsize at hs
    rw [symbolTurn_eq hs, hread s hs, hbytes]
    dsimp only
    rw [if_pos hmod, hnone]
    rfl

end

end Glog.Symbolize
