import Glog.Symbolize.Termination

/-! # A scan by pieces

Where the records follow one another and are all in the file, a scan by pieces finds what a search through the list of the
records finds. -/

namespace Glog.Symbolize
open Run

namespace Table

/-- The records, in the order of the table. -/
def all (T : Table) : List Bytes := (List.range T.count).map T.record

/-- What a scan leaves its loop with, from the record that it has found and the next call of `pread`. -/
structure Answers {ρ : Type} (T : Table) (body : Cursor → Except Fault (Turn Cursor ρ))
    (answer : Option Bytes → Nat → Except Fault ρ) : Prop where
  past : ∀ s, T.count ≤ s.i → body s = (answer none s.call).map .leave
  finds : ∀ s buf record, s.i < T.count → T.bytes s.i = some buf → T.size ∣ buf.length →
    (records T.size (buf.length / T.size) buf).find? T.sought = some record →
      ∃ call, body s = (answer (some record) call).map .leave

variable {ρ : Type} {T : Table} {body : Cursor → Except Fault (Turn Cursor ρ)}
    {answer : Option Bytes → Nat → Except Fault ρ} {s : Cursor}

theorem loop_of_leave {x : Except Fault ρ} (h : body s = x.map .leave) : loop body 1 s = some x := by
  apply loop_of_result
  rw [h]
  cases x with
  | error fault => rfl
  | ok r => rfl

/-- Every piece is whole. -/
theorem Dense.whole_piece (h : Dense T) (hinside : T.offset + T.size * T.count ≤ T.file.content.length) {i : Nat}
    (hi : i < T.count) : ∃ buf m, T.bytes i = some buf ∧ buf.length = T.size * m ∧ 0 < m ∧ i + m ≤ T.count ∧
      records T.size (buf.length / T.size) buf = (List.range' i m).map T.record := by
  have hsize := T.file.size_lt
  have hoffset : T.offset < 2 ^ 63 := by omega
  have hbefore : T.size * i + T.size * (T.count - i) ≤ T.available := by
    rw [← Nat.mul_add, Nat.add_sub_cancel' (Nat.le_of_lt hi), available]
    omega
  have hpiece : T.size * min T.chunk (T.count - i) ≤ T.size * (T.count - i) :=
    Nat.mul_le_mul_left _ (Nat.min_le_right _ _)
  have hbuf := h.bytes_eq hoffset (i := i) (by omega)
  have hlength := (h.length_eq hoffset (by omega) hbuf).trans (Nat.min_eq_left (by omega))
  have hrecords := h.records_eq hoffset (by omega) hbuf
  have hchunk := h.chunk_pos
  refine ⟨_, min T.chunk (T.count - i), hbuf, hlength, by omega, by omega, ?_⟩
  rw [hrecords, hlength, Nat.mul_div_cancel_left _ h.size_pos]

/-- The pieces from an index on are searched like the records from there on. -/
theorem scan_from (h : Dense T) (hscans : T.Scans body) (hanswers : T.Answers body answer)
    (hinside : T.offset + T.size * T.count ≤ T.file.content.length) (n : Nat) :
    ∀ i call, T.count - i ≤ n → i ≤ T.count → ∃ fuel call', loop body fuel ⟨i, call⟩ =
      some (answer (((List.range' i (T.count - i)).map T.record).find? T.sought) call') := by
  induction n with
  | zero =>
    intro i call hn hi
    have hlast : T.count ≤ i := by omega
    refine ⟨1, call, loop_of_leave ?_⟩
    rw [Nat.sub_eq_zero_of_le hlast]
    exact hanswers.past ⟨i, call⟩ hlast
  | succ n ih =>
    intro i call hn hi
    rcases Nat.eq_or_lt_of_le hi with rfl | hlt
    · refine ⟨1, call, loop_of_leave ?_⟩
      rw [Nat.sub_self]
      exact hanswers.past ⟨T.count, call⟩ (Nat.le_refl _)
    · obtain ⟨buf, m, hbuf, hlength, hm, hmle, hrecords⟩ := h.whole_piece hinside hlt
      have hdvd : T.size ∣ buf.length := ⟨m, hlength⟩
      have hrest : List.range' i (T.count - i) = List.range' i m ++ List.range' (i + m) (T.count - (i + m)) := by
        rw [List.range'_append_1]
        congr 1
        omega
      rw [hrest, List.map_append, List.find?_append]
      cases hfind : ((List.range' i m).map T.record).find? T.sought with
      | some record =>
        obtain ⟨call', hbody⟩ := hanswers.finds ⟨i, call⟩ buf record hlt hbuf hdvd (hrecords ▸ hfind)
        exact ⟨1, call', loop_of_leave hbody⟩
      | none =>
        have hpasses : T.Passes i buf := by
          refine ⟨hbuf, hdvd, fun record hrecord => ?_⟩
          rw [hrecords] at hrecord
          exact Bool.eq_false_iff.mpr (List.find?_eq_none.mp hfind record hrecord)
        obtain ⟨call', hbody⟩ := hscans.goes ⟨i, call⟩ buf hlt hpasses
        have hnext : (i + buf.length / T.size) % T.width = i + m := by
          rw [(next_eq h.count_lt hlt hbuf).1, hlength, Nat.mul_div_cancel_left m h.size_pos]
        obtain ⟨fuel, call'', hloop⟩ := ih (i + m) call' (by omega) (by omega)
        rw [hnext] at hbody
        exact ⟨fuel + 1, call'', (loop_of_again hbody).trans hloop⟩

/-- The scan finds the first record of the table that is sought. -/
theorem scan_eq (h : Dense T) (hscans : T.Scans body) (hanswers : T.Answers body answer)
    (hinside : T.offset + T.size * T.count ≤ T.file.content.length) (call : Nat) :
    ∃ fuel call', loop body fuel ⟨0, call⟩ = some (answer (T.all.find? T.sought) call') := by
  have hscan := scan_from h hscans hanswers hinside T.count 0 call (Nat.sub_le _ _) (Nat.zero_le _)
  rwa [Nat.sub_zero, ← List.range_eq_range'] at hscan

end Table

/-! ### The tables of a file -/

/-- The section headers of a file, in the order of their table. -/
def sectionHeaders (file : File) (shNum shOffset : Nat) : List Shdr :=
  (List.range shNum).map fun k => shdr ((file.content.drop (shOffset + 64 * k)).take 64)

/-- The symbols of a table, in its order. -/
def symbols (file : File) (symtab : Shdr) : List Sym :=
  (List.range (symtab.shSize / symtab.shEntsize)).map fun k => sym ((file.content.drop (symtab.shOffset + 24 * k)).take 24)

def File.ehdr (file : File) : Ehdr := Symbolize.ehdr (file.content.take 64)

def File.headers (file : File) : List Shdr := sectionHeaders file file.ehdr.eShnum file.ehdr.eShoff

/-- A table of symbols is in the file, and has a table of strings. -/
structure SymbolTable (file : File) (symtab : Shdr) : Prop where
  entsize : symtab.shEntsize = 24
  count : symtab.shSize / 24 < 2 ^ 32
  inside : symtab.shOffset + symtab.shSize ≤ file.content.length
  strings : ∃ strtab, file.headers[symtab.shLink]? = some strtab ∧ strtab.shOffset ≤ file.content.length

/-- The headers and the tables that are looked for are in the file as they should be. -/
structure WholeTables (file : File) : Prop where
  header : 64 ≤ file.content.length
  sections : file.ehdr.eShoff + 64 * file.ehdr.eShnum ≤ file.content.length
  tables : ∀ symtab ∈ file.headers, symtab.shType = shtSymtab ∨ symtab.shType = shtDynsym → SymbolTable file symtab

/-- What `FindSymbol` does with the symbol that it has selected. -/
def select (pread : Pread) (out : Bytes) (strtab : Shdr) : Option Sym → Nat → Except Fault Found
  | none, call => .ok ⟨false, out, call⟩
  | some symbol, call => readName pread out strtab symbol call

section
variable {file : File} {pread : Pread} {shNum shOffset type pc symbolOffset call : Nat} {out : Bytes}
  {strtab symtab : Shdr}

theorem readFromOffsetExact_inside {count offset : Nat} (hholds : Holds file pread) (hpos : 0 < count)
    (hinside : offset + count ≤ file.content.length) : ∃ call',
      readFromOffsetExact pread count offset call = .ok ⟨some ((file.content.drop offset).take count), call'⟩ := by
  have hsize := file.size_lt
  have hread := @readFromOffset_ok pread count offset call (by omega)
  have hbytes := @bytes_readLoop file pread count offset call hholds hpos (by omega)
  have hlength : sizeOfLength (some ((file.content.drop offset).take count)) = count := by
    rw [sizeOfLength, List.length_take, List.length_drop]
    omega
  rw [File.bytes, if_neg (by omega)] at hbytes
  refine ⟨(readLoop pread count offset count [] call).call, ?_⟩
  unfold readFromOffsetExact
  rw [hread]
  dsimp only [Bind.bind, Except.bind]
  rw [hbytes, if_pos hlength, ← hbytes]
  rfl

theorem readHeader (hholds : Holds file pread) (hheader : 64 ≤ file.content.length) :
    ∃ call', readFromOffsetExact pread 64 0 call = .ok ⟨some (file.content.take 64), call'⟩ := by
  have hinside : 0 + 64 ≤ file.content.length := by
    rw [Nat.zero_add]
    exact hheader
  obtain ⟨call', hread⟩ := @readFromOffsetExact_inside file pread call 64 0 hholds (by decide) hinside
  rw [List.drop_zero] at hread
  exact ⟨call', hread⟩

theorem answers_sectionTable (hholds : Holds file pread) : (sectionTable file shNum shOffset type).Answers
    (sectionTurn pread shNum shOffset type) fun record call => .ok ⟨record.map shdr, call⟩ where
  past s hs := sectionTurn_past hs
  finds s buf record hs hbuf hdvd hfind := by
    change s.i < shNum at hs
    have hread : (sectionRead pread shNum shOffset s).bytes = some buf :=
      (bytes_readLoop hholds (by omega) (Nat.mod_lt _ (by decide))).trans hbuf
    have hwhole : buf.length % 64 = 0 := Nat.mod_eq_zero_of_dvd hdvd
    refine ⟨(sectionRead pread shNum shOffset s).call, ?_⟩
    change (records 64 (buf.length / 64) buf).find? (fun record => (shdr record).shType == type) = some record at hfind
    rw [sectionTurn_eq hs, hread]
    dsimp only
    rw [if_pos hwhole, hfind]
    rfl

theorem answers_symbolTable (hholds : Holds file pread) : (symbolTable file pc symbolOffset symtab).Answers
    (symbolTurn pread pc out symbolOffset strtab symtab (symtab.shSize / symtab.shEntsize))
    fun record call => select pread out strtab (record.map sym) call where
  past s hs := symbolTurn_past hs
  finds s buf record hs hbuf hdvd hfind := by
    change s.i < symtab.shSize / symtab.shEntsize at hs
    have hread : (symbolRead pread symtab (symtab.shSize / symtab.shEntsize) s).bytes = some buf :=
      (bytes_readLoop hholds (by omega) (Nat.mod_lt _ (by decide))).trans hbuf
    have hwhole : buf.length % 24 = 0 := Nat.mod_eq_zero_of_dvd hdvd
    refine ⟨(symbolRead pread symtab (symtab.shSize / symtab.shEntsize) s).call, ?_⟩
    change (records 24 (buf.length / 24) buf).find? (fun record => contains pc symbolOffset (sym record)) =
      some record at hfind
    rw [symbolTurn_eq hs, hread]
    dsimp only
    rw [if_pos hwhole, hfind]
    rfl

theorem getSectionHeaderByType_eq (hholds : Holds file pread) (hinside : shOffset + 64 * shNum ≤ file.content.length)
    (type call : Nat) : ∃ fuel call', getSectionHeaderByType fuel pread shNum shOffset type call =
      some (.ok ⟨(sectionHeaders file shNum shOffset).find? fun header => header.shType == type, call'⟩) := by
  have hsize := file.size_lt
  obtain ⟨fuel, call', hloop⟩ := Table.scan_eq (dense_sectionTable (by omega)) (scans_sectionTable hholds)
    (answers_sectionTable hholds) hinside call
  refine ⟨fuel, call', hloop.trans ?_⟩
  simp only [Table.all, sectionHeaders, List.find?_map, Option.map_map]
  rfl

theorem findSymbol_eq (hholds : Holds file pread) (hentsize : symtab.shEntsize = 24) (hcount : symtab.shSize / 24 < 2 ^ 32)
    (hinside : symtab.shOffset + symtab.shSize ≤ file.content.length) (pc : Nat) (out : Bytes) (symbolOffset : Nat)
    (strtab : Shdr) (call : Nat) : ∃ fuel call', findSymbol fuel pread pc out symbolOffset strtab symtab call =
      some (select pread out strtab ((symbols file symtab).find? (contains pc symbolOffset)) call') := by
  have hsize := file.size_lt
  have hdense := @dense_symbolTable file pc symbolOffset symtab hentsize hcount (by omega)
  have hfits : symtab.shOffset + 24 * (symtab.shSize / symtab.shEntsize) ≤ file.content.length := by
    rw [hentsize]
    omega
  obtain ⟨fuel, call', hloop⟩ := Table.scan_eq hdense (scans_symbolTable hholds) (answers_symbolTable hholds) hfits call
  have hpos : symtab.shEntsize ≠ 0 := by omega
  refine ⟨fuel, call', (if_neg hpos).trans (hloop.trans ?_)⟩
  simp only [Table.all, symbols, List.find?_map, Option.map_map]
  rfl

/-- `GetSectionHeaderByType` finds the first section header of the type in the table, and `FindSymbol` selects the first
symbol that contains the pc; where there is none, both end without. -/
theorem scans_linear (hholds : Holds file pread) :
    (∀ shNum shOffset type call, shOffset + 64 * shNum ≤ file.content.length →
      ∃ fuel call', getSectionHeaderByType fuel pread shNum shOffset type call =
        some (.ok ⟨(sectionHeaders file shNum shOffset).find? fun header => header.shType == type, call'⟩)) ∧
    ∀ (symtab : Shdr) pc out symbolOffset strtab call, symtab.shEntsize = 24 → symtab.shSize / 24 < 2 ^ 32 →
      symtab.shOffset + symtab.shSize ≤ file.content.length →
      ∃ fuel call', findSymbol fuel pread pc out symbolOffset strtab symtab call =
        some (select pread out strtab ((symbols file symtab).find? (contains pc symbolOffset)) call') :=
  ⟨fun _ _ type call hinside => getSectionHeaderByType_eq hholds hinside type call,
    fun _ pc out symbolOffset strtab call hentsize hcount hinside =>
      findSymbol_eq hholds hentsize hcount hinside pc out symbolOffset strtab call⟩

/-- The second section header has the type of a table of strings, and the last symbol contains the pc. -/
theorem scans_linear_slowly :
    (∃ fuel call, getSectionHeaderByType fuel (tableFile.slowly 100) 2 64 3 0 =
      some (.ok ⟨some ⟨3, 1152, 3, 0, 0⟩, call⟩)) ∧
      ∃ fuel call, findSymbol fuel (tableFile.slowly 100) 0x1008 [0, 0] 0 ⟨3, 1152, 3, 0, 0⟩ ⟨2, 192, 960, 1, 24⟩ 0 =
        some (select (tableFile.slowly 100) [0, 0] ⟨3, 1152, 3, 0, 0⟩ (some ⟨1, 1, 0x1000, 16⟩) call) := by
  obtain ⟨hsections, hsymbols⟩ := scans_linear (holds_slowly tableFile (show 0 < 100 by decide))
  have hheader : (sectionHeaders tableFile 2 64).find? (fun header => header.shType == 3) =
      some ⟨3, 1152, 3, 0, 0⟩ := by decide +kernel
  have hsymbol : (symbols tableFile ⟨2, 192, 960, 1, 24⟩).find? (contains 0x1008 0) =
      some ⟨1, 1, 0x1000, 16⟩ := by decide +kernel
  rw [← hheader, ← hsymbol]
  refine ⟨hsections 2 64 3 0 (by decide +kernel), ?_⟩
  exact hsymbols ⟨2, 192, 960, 1, 24⟩ 0x1008 [0, 0] 0 ⟨3, 1152, 3, 0, 0⟩ 0 rfl (by decide) (by decide +kernel)

end

end Glog.Symbolize
