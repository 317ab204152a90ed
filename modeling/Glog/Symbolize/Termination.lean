import Glog.Symbolize.Scans

/-! # Termination

A read at the end of the file gives no record, and the scan then reads there again. So it ends only where something
else comes first. -/

namespace Glog.Symbolize
open Run

section
variable {file : File} {pread : Pread} {shNum shOffset type pc symbolOffset call : Nat} {out : Bytes}
  {strtab symtab : Shdr}

/-- The section headers are in the file, or `pread` refuses their offset, or the file ends within a header, or one of
    those that it has is of the type. -/
def SectionsInReach (file : File) (shNum shOffset type : Nat) : Prop :=
  shNum * 64 ≤ file.content.length - shOffset ∨ 2 ^ 63 ≤ shOffset ∨ ¬ 64 ∣ file.content.length - shOffset ∨
    ∃ k < (file.content.length - shOffset) / 64,
      (shdr ((file.content.drop (shOffset + 64 * k)).take 64)).shType = type

theorem dense_sectionTable (hoffset : shOffset < 2 ^ 64) : (sectionTable file shNum shOffset type).Dense where
  size_pos := Nat.zero_lt_succ 63
  chunk_pos := Nat.zero_lt_succ 15
  stride := rfl
  count_lt := Nat.lt_succ_self shNum
  offset_lt := hoffset

theorem sectionTable_inReach_iff (hoffset : shOffset < 2 ^ 64) :
    (sectionTable file shNum shOffset type).InReach ↔ SectionsInReach file shNum shOffset type := by
  have hiff := (@dense_sectionTable file shNum shOffset type hoffset).inReach_iff
  rw [hiff, SectionsInReach]
  refine or_congr Iff.rfl (or_congr Iff.rfl (or_congr Iff.rfl ?_))
  exact ⟨fun ⟨k, hk, hsought⟩ => ⟨k, hk, beq_iff_eq.mp hsought⟩, fun ⟨k, hk, htype⟩ => ⟨k, hk, beq_iff_eq.mpr htype⟩⟩

theorem dense_symbolTable (hentsize : symtab.shEntsize = 24) (hsize : symtab.shSize / 24 < 2 ^ 32)
    (hoffset : symtab.shOffset < 2 ^ 64) : (symbolTable file pc symbolOffset symtab).Dense where
  size_pos := Nat.zero_lt_succ 23
  chunk_pos := Nat.zero_lt_succ 31
  stride := hentsize
  count_lt := by
    change symtab.shSize / symtab.shEntsize < 2 ^ 32
    rw [hentsize]
    exact hsize
  offset_lt := hoffset

/-- Where the symbols follow one another, as in every table that is not malformed, and there are fewer than 2 ^ 32, the
    scan of the symbols ends as that of the headers does. -/
theorem symbolTable_inReach_iff (hentsize : symtab.shEntsize = 24) (hsize : symtab.shSize / 24 < 2 ^ 32)
    (hoffset : symtab.shOffset < 2 ^ 64) :
    (symbolTable file pc symbolOffset symtab).InReach ↔
      symtab.shSize / 24 * 24 ≤ file.content.length - symtab.shOffset ∨ 2 ^ 63 ≤ symtab.shOffset ∨
        ¬ 24 ∣ file.content.length - symtab.shOffset ∨
        ∃ k < (file.content.length - symtab.shOffset) / 24,
          contains pc symbolOffset (sym ((file.content.drop (symtab.shOffset + 24 * k)).take 24)) = true := by
  have hcount : (symbolTable file pc symbolOffset symtab).count = symtab.shSize / 24 := congrArg _ hentsize
  rw [(dense_symbolTable hentsize hsize hoffset).inReach_iff, hcount]
  exact Iff.rfl

/-- The scan of the section headers ends exactly if they are in reach. The one of the symbols ends exactly if no piece
    that it reads on its way is empty, and, where there are 2 ^ 32 symbols or more, something stops it. -/
theorem scans_end_iff (hholds : Holds file pread) (hoffset : shOffset < 2 ^ 64) :
    ((∃ fuel r, getSectionHeaderByType fuel pread shNum shOffset type call = some r) ↔
      SectionsInReach file shNum shOffset type) ∧
    (symtab.shEntsize ≠ 0 →
      ((∃ fuel r, findSymbol fuel pread pc out symbolOffset strtab symtab call = some r) ↔
        (symbolTable file pc symbolOffset symtab).InReach)) := by
  refine ⟨?_, fun hentsize => ?_⟩
  · rw [← sectionTable_inReach_iff hoffset]
    exact (scans_sectionTable hholds).ends_iff (Nat.zero_lt_succ 63) (Nat.zero_lt_succ shNum)
  · have hfind : ∀ fuel, findSymbol fuel pread pc out symbolOffset strtab symtab call =
        loop (symbolTurn pread pc out symbolOffset strtab symtab (symtab.shSize / symtab.shEntsize)) fuel ⟨0, call⟩ :=
      fun fuel => if_neg hentsize
    simp only [hfind]
    exact (scans_symbolTable hholds).ends_iff (Nat.zero_lt_succ 23) (Nat.two_pow_pos 32)

/-- Reads of 100 bytes at most go through both section headers, and through 40 symbols that do not contain the pc. -/
theorem scans_end_iff_slowly :
    (∃ fuel r, getSectionHeaderByType fuel (tableFile.slowly 100) 2 64 11 0 = some r) ∧
      ∃ fuel r, findSymbol fuel (tableFile.slowly 100) 0x2000 [0, 0] 0 ⟨3, 1152, 3, 0, 0⟩ ⟨2, 192, 960, 1, 24⟩ 0 =
        some r := by
  obtain ⟨hsections, hsymbols⟩ :=
    @scans_end_iff tableFile (tableFile.slowly 100) 2 64 11 0x2000 0 0 [0, 0] ⟨3, 1152, 3, 0, 0⟩
    ⟨2, 192, 960, 1, 24⟩ (holds_slowly _ (by decide)) (by decide)
  refine ⟨hsections.mpr (Or.inl (by decide +kernel)), (hsymbols (by decide)).mpr ?_⟩
  exact (symbolTable_inReach_iff rfl (by decide) (by decide)).mpr (Or.inl (by decide +kernel))

/-- A file of 64 bytes whose header says that there is one section, at 64. -/
theorem not_scans_end : ∃ file : File, Holds file file.pread ∧
    ¬ ∃ fuel r, getSectionHeaderByType fuel file.pread 1 64 2 0 = some r := by
  refine ⟨⟨List.replicate 64 0, by decide⟩, holds_pread _, ?_⟩
  exact (scans_sectionTable (holds_pread _)).not_ends_of_empty (Nat.zero_lt_succ 1) .first (Nat.zero_lt_succ 0) rfl

end

end Glog.Symbolize
