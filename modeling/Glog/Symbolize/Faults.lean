import Glog.Run.Fuel
import Glog.Symbolize.Linear

/-! # Faults

The assertions about lengths hold whatever `pread` returns, but for those on whole records; with the division by
`sh_entsize` these are what can go wrong. -/

namespace Glog.Symbolize
open Run

section
variable {pread : Pread} {shNum shOffset type pc symbolOffset baseAddress numSymbols call : Nat} {out : Bytes}
  {strtab symtab : Shdr} {elfHeader : Ehdr} {fault : Fault} {s : Cursor}

/-! ### The loops -/

/-- Every piece of the section headers that is read has whole headers. -/
def SectionsSound (pread : Pread) (shNum shOffset type call : Nat) : Prop :=
  ∀ s buf, Visits (sectionTurn pread shNum shOffset type) ⟨0, call⟩ s → s.i < shNum →
    (sectionRead pread shNum shOffset s).bytes = some buf → 64 ∣ buf.length

/-- Every piece of the symbol table that is read has whole symbols, and can be read. -/
def SymbolsSound (pread : Pread) (pc : Nat) (out : Bytes) (symbolOffset : Nat) (strtab symtab : Shdr) (call : Nat) : Prop :=
  ∀ s, Visits (symbolTurn pread pc out symbolOffset strtab symtab (symtab.shSize / symtab.shEntsize)) ⟨0, call⟩ s →
    s.i < symtab.shSize / symtab.shEntsize →
      ∃ buf, (symbolRead pread symtab (symtab.shSize / symtab.shEntsize) s).bytes = some buf ∧ 24 ∣ buf.length

theorem sectionTurn_fault : Turn.result (sectionTurn pread shNum shOffset type s) = some (.error fault) ↔
    fault = .safeAssert ∧ s.i < shNum ∧ ∃ buf, (sectionRead pread shNum shOffset s).bytes = some buf ∧ ¬ 64 ∣
      buf.length := by
  by_cases h : s.i < shNum
  · rw [sectionTurn_eq h]
    cases hbytes : (sectionRead pread shNum shOffset s).bytes with
    | none =>
      constructor
      · intro hc
        cases hc
      · rintro ⟨-, -, buf, hc, -⟩
        cases hc
    | some buf =>
      dsimp only
      by_cases hwhole : buf.length % 64 = 0
      · rw [if_pos hwhole]
        constructor
        · intro hc
          split at hc
          · cases hc
          · cases hc
        · rintro ⟨-, -, buf', hc, hpart⟩
          cases hc
          exact absurd (Nat.dvd_of_mod_eq_zero hwhole) hpart
      · rw [if_neg hwhole]
        constructor
        · intro hc
          cases hc
          exact ⟨rfl, h, buf, rfl, fun hdvd => hwhole (Nat.mod_eq_zero_of_dvd hdvd)⟩
        · rintro ⟨rfl, -, -⟩
          rfl
  · rw [sectionTurn_past (Nat.le_of_not_lt h)]
    constructor
    · intro hc
      cases hc
    · rintro ⟨-, hlt, -⟩
      exact absurd hlt h

/-- The scan of the section headers fails exactly if a piece of them is not sound. -/
theorem sections_fault :
    (∃ fault, Gives (fun fuel => getSectionHeaderByType fuel pread shNum shOffset type call) (.error fault)) ↔
    ¬ SectionsSound pread shNum shOffset type call := by
  constructor
  · rintro ⟨fault, hgives⟩ hsound
    obtain ⟨t, hvisits, hresult⟩ := loop_eq_some_iff.mp hgives
    obtain ⟨-, hlt, buf, hbuf, hpart⟩ := sectionTurn_fault.mp hresult
    exact hpart (hsound t buf hvisits hlt hbuf)
  · refine fun hnot => Classical.byContradiction fun hnone => hnot fun t buf hvisits hlt hbuf => ?_
    refine Classical.byContradiction fun hpart => hnone ⟨.safeAssert, loop_eq_some_iff.mpr ⟨t, hvisits, ?_⟩⟩
    exact sectionTurn_fault.mpr ⟨rfl, hlt, buf, hbuf, hpart⟩

/-- The name of a symbol is read without a fault into a buffer of a possible size. -/
theorem readName_ok (hout : out.length < 2 ^ 63) (symbol : Sym) (call : Nat) :
    ∃ found, readName pread out strtab symbol call = .ok found := by
  unfold readName
  rw [readFromOffset_ok hout]
  dsimp only [Bind.bind, Except.bind]
  split
  · exact ⟨_, rfl⟩
  · exact ⟨_, rfl⟩

theorem symbolTurn_fault (hout : out.length < 2 ^ 63) :
    Turn.result (symbolTurn pread pc out symbolOffset strtab symtab numSymbols s) = some (.error fault) ↔
      fault = .safeAssert ∧ s.i < numSymbols ∧
        ¬ ∃ buf, (symbolRead pread symtab numSymbols s).bytes = some buf ∧ 24 ∣ buf.length := by
  by_cases h : s.i < numSymbols
  · rw [symbolTurn_eq h]
    cases hbytes : (symbolRead pread symtab numSymbols s).bytes with
    | none =>
      constructor
      · intro hc
        cases hc
        refine ⟨rfl, h, ?_⟩
        rintro ⟨buf, hc, -⟩
        cases hc
      · rintro ⟨rfl, -, -⟩
        rfl
    | some buf =>
      dsimp only
      by_cases hwhole : buf.length % 24 = 0
      · rw [if_pos hwhole]
        constructor
        · intro hc
          split at hc
          · rename_i record _
            obtain ⟨found, hfound⟩ :=
              @readName_ok pread out strtab hout (sym record) (symbolRead pread symtab numSymbols s).call
            rw [hfound] at hc
            cases hc
          · cases hc
        · rintro ⟨-, -, hnot⟩
          exact absurd ⟨buf, rfl, Nat.dvd_of_mod_eq_zero hwhole⟩ hnot
      · rw [if_neg hwhole]
        constructor
        · intro hc
          cases hc
          refine ⟨rfl, h, ?_⟩
          rintro ⟨buf', hc, hdvd⟩
          cases hc
          exact hwhole (Nat.mod_eq_zero_of_dvd hdvd)
        · rintro ⟨rfl, -, -⟩
          rfl
  · rw [symbolTurn_past (Nat.le_of_not_lt h)]
    constructor
    · intro hc
      cases hc
    · rintro ⟨-, hlt, -⟩
      exact absurd hlt h

/-- The scan of the symbols fails exactly if a piece of them is not sound, or there is nothing to divide by. -/
theorem symbols_fault (hout : out.length < 2 ^ 63) :
    (∃ fault, Gives (fun fuel => findSymbol fuel pread pc out symbolOffset strtab symtab call) (.error fault)) ↔
      ¬ (symtab.shEntsize ≠ 0 ∧ SymbolsSound pread pc out symbolOffset strtab symtab call) := by
  unfold findSymbol
  by_cases hentsize : symtab.shEntsize = 0
  · simp only [if_pos hentsize]
    exact ⟨fun _ hc => hc.1 hentsize, fun _ => ⟨.divisionByZero, 0, rfl⟩⟩
  · simp only [if_neg hentsize]
    constructor
    · rintro ⟨fault, hgives⟩ ⟨-, hsound⟩
      obtain ⟨t, hvisits, hresult⟩ := loop_eq_some_iff.mp hgives
      obtain ⟨-, hlt, hnot⟩ := (symbolTurn_fault hout).mp hresult
      exact hnot (hsound t hvisits hlt)
    · refine fun hnot => Classical.byContradiction fun hnone => hnot ⟨hentsize, fun t hvisits hlt => ?_⟩
      refine Classical.byContradiction fun hpart => hnone ⟨.safeAssert, loop_eq_some_iff.mpr ⟨t, hvisits, ?_⟩⟩
      exact (symbolTurn_fault hout).mpr ⟨rfl, hlt, hpart⟩

/-! ### The whole search -/

theorem steady_findSymbol : Steady fun fuel => findSymbol fuel pread pc out symbolOffset strtab symtab call := by
  by_cases hentsize : symtab.shEntsize = 0
  · have heq : (fun fuel => findSymbol fuel pread pc out symbolOffset strtab symtab call) =
        fun _ => some (.error .divisionByZero) := funext fun fuel => if_pos hentsize
    rw [heq]
    exact steady_const _
  · have heq : (fun fuel => findSymbol fuel pread pc out symbolOffset strtab symtab call) = fun fuel =>
        loop (symbolTurn pread pc out symbolOffset strtab symtab (symtab.shSize / symtab.shEntsize)) fuel ⟨0, call⟩ :=
      funext fun fuel => if_neg hentsize
    rw [heq]
    exact steady_loop _ _

/-- What is done with the header of a symbol table. -/
def consultSection (pread : Pread) (pc : Nat) (baseAddress : Nat) (elfHeader : Ehdr) (out : Bytes) (fuel : Nat)
    (sec : Section) : Machine (Found × Bool) := do
  match sec.header with
  | none => return (⟨false, out, sec.call⟩, false)
  | some symtab =>
    let read ← Machine.of (readFromOffsetExact pread 64 ((elfHeader.eShoff + symtab.shLink * 64) % 2 ^ 64) sec.call)
    match read.bytes with
    | none => return (⟨false, out, read.call⟩, true)
    | some record =>
      let found ← ExceptT.mk (findSymbol fuel pread pc out baseAddress (shdr record) symtab read.call)
      return (found, found.found)

theorem consult_eq : (fun fuel => consult fuel pread pc baseAddress elfHeader type out call) = fun fuel =>
    ExceptT.mk (getSectionHeaderByType fuel pread elfHeader.eShnum elfHeader.eShoff type call) >>=
      consultSection pread pc baseAddress elfHeader out fuel := rfl

/-- Where there is a symbol table with a readable string table, its symbols are searched. -/
theorem consultSection_some {symtab : Shdr} {record : Bytes} {call₁ call₂ fuel : Nat}
    (hread : readFromOffsetExact pread 64 ((elfHeader.eShoff + symtab.shLink * 64) % 2 ^ 64) call₁ =
      .ok ⟨some record, call₂⟩) :
    consultSection pread pc baseAddress elfHeader out fuel ⟨some symtab, call₁⟩ =
      ExceptT.mk (findSymbol fuel pread pc out baseAddress (shdr record) symtab call₂) >>= fun found =>
        pure (found, found.found) := by
  unfold consultSection
  dsimp only
  rw [hread]
  rfl

theorem consultSection_none {symtab : Shdr} {call₁ call₂ fuel : Nat}
    (hread : readFromOffsetExact pread 64 ((elfHeader.eShoff + symtab.shLink * 64) % 2 ^ 64) call₁ = .ok ⟨none, call₂⟩) :
    consultSection pread pc baseAddress elfHeader out fuel ⟨some symtab, call₁⟩ = pure (⟨false, out, call₂⟩, true) := by
  unfold consultSection
  dsimp only
  rw [hread]
  rfl

theorem steady_consultSection (sec : Section) :
    Steady fun fuel => consultSection pread pc baseAddress elfHeader out fuel sec := by
  obtain ⟨header, call₁⟩ := sec
  cases header with
  | none => exact steady_const _
  | some symtab =>
    obtain ⟨⟨bytes, call₂⟩, hread⟩ :=
      readFromOffsetExact_ok (show 64 < 2 ^ 63 by decide) pread ((elfHeader.eShoff + symtab.shLink * 64) % 2 ^ 64) call₁
    cases bytes with
    | none =>
      simp only [consultSection_none hread]
      exact steady_const _
    | some record =>
      simp only [consultSection_some hread]
      exact steady_findSymbol.bind fun found => steady_const _

theorem steady_consult : Steady fun fuel => consult fuel pread pc baseAddress elfHeader type out call := by
  rw [consult_eq]
  exact (steady_loop _ _).bind steady_consultSection

/-- The pieces of the section headers are sound, and if there is a table of the type with its string table then its
    pieces are, and there is something to divide by. -/
def ConsultSound (pread : Pread) (pc baseAddress : Nat) (elfHeader : Ehdr) (type : Nat) (out : Bytes) (call : Nat) : Prop :=
  SectionsSound pread elfHeader.eShnum elfHeader.eShoff type call ∧
    ∀ symtab call₁ record call₂,
      Gives (fun fuel => getSectionHeaderByType fuel pread elfHeader.eShnum elfHeader.eShoff type call)
        (.ok ⟨some symtab, call₁⟩) →
      readFromOffsetExact pread 64 ((elfHeader.eShoff + symtab.shLink * 64) % 2 ^ 64) call₁ = .ok ⟨some record, call₂⟩ →
        symtab.shEntsize ≠ 0 ∧ SymbolsSound pread pc out baseAddress (shdr record) symtab call₂

theorem consultSection_fault (hout : out.length < 2 ^ 63) (sec : Section) :
    (∃ fault, Gives (fun fuel => consultSection pread pc baseAddress elfHeader out fuel sec) (.error fault)) ↔
      ∃ symtab record call₂, sec.header = some symtab ∧
        readFromOffsetExact pread 64 ((elfHeader.eShoff + symtab.shLink * 64) % 2 ^ 64) sec.call =
          .ok ⟨some record, call₂⟩ ∧
        ¬ (symtab.shEntsize ≠ 0 ∧ SymbolsSound pread pc out baseAddress (shdr record) symtab call₂) := by
  obtain ⟨header, call₁⟩ := sec
  cases header with
  | none =>
    constructor
    · rintro ⟨fault, fuel, hc⟩
      cases hc
    · rintro ⟨symtab, record, call₂, hc, -⟩
      cases hc
  | some symtab =>
    obtain ⟨⟨bytes, call₂⟩, hread⟩ :=
      readFromOffsetExact_ok (show 64 < 2 ^ 63 by decide) pread ((elfHeader.eShoff + symtab.shLink * 64) % 2 ^ 64) call₁
    cases bytes with
    | none =>
      simp only [consultSection_none hread]
      constructor
      · rintro ⟨fault, fuel, hc⟩
        cases hc
      · rintro ⟨symtab', record, call₂', hheader, hread', -⟩
        cases hheader
        rw [hread] at hread'
        cases hread'
    | some record =>
      simp only [consultSection_some hread]
      refine ((exists_congr fun fault => gives_bind_pure_error steady_findSymbol _).trans (symbols_fault hout)).trans ?_
      constructor
      · exact fun hnot => ⟨symtab, record, call₂, rfl, hread, hnot⟩
      · rintro ⟨symtab', record', call₂', hheader, hread', hnot⟩
        cases hheader
        rw [hread] at hread'
        cases hread'
        exact hnot

theorem consult_fault (hout : out.length < 2 ^ 63) :
    (∃ fault, Gives (fun fuel => consult fuel pread pc baseAddress elfHeader type out call) (.error fault)) ↔
      ¬ ConsultSound pread pc baseAddress elfHeader type out call := by
  rw [consult_eq]
  constructor
  · rintro ⟨fault, hgives⟩ ⟨hsections, hsymbols⟩
    rcases (gives_bind_error (steady_loop _ _) steady_consultSection).mp hgives with hgives | ⟨sec, hsec, hgives⟩
    · exact sections_fault.mp ⟨fault, hgives⟩ hsections
    · obtain ⟨symtab, record, call₂, hheader, hread, hnot⟩ := (consultSection_fault hout sec).mp ⟨fault, hgives⟩
      refine hnot (hsymbols symtab sec.call record call₂ ?_ hread)
      rw [← hheader]
      exact hsec
  · refine fun hnot => Classical.byContradiction fun hnone => hnot ⟨?_, fun symtab call₁ record call₂ hsec hread => ?_⟩
    · refine Classical.byContradiction fun hunsound => ?_
      obtain ⟨fault, hgives⟩ := sections_fault.mpr hunsound
      exact hnone ⟨fault, (gives_bind_error (steady_loop _ _) steady_consultSection).mpr (Or.inl hgives)⟩
    · refine Classical.byContradiction fun hunsound => ?_
      obtain ⟨fault, hgives⟩ := (consultSection_fault hout ⟨some symtab, call₁⟩).mpr
        ⟨symtab, record, call₂, rfl, hread, hunsound⟩
      exact hnone ⟨fault, (gives_bind_error (steady_loop _ _) steady_consultSection).mpr (Or.inr ⟨_, hsec, hgives⟩)⟩

/-- Each table that is consulted is sound: the regular one, and the dynamic one if that did not settle it. -/
def ObjectSound (pread : Pread) (pc : Nat) (out : Bytes) (baseAddress call : Nat) : Prop :=
  ∀ record call₁, readFromOffsetExact pread 64 0 call = .ok ⟨some record, call₁⟩ →
    ConsultSound pread pc baseAddress (ehdr record) shtSymtab out call₁ ∧
      ∀ answer,
        Gives (fun fuel => consult fuel pread pc baseAddress (ehdr record) shtSymtab out call₁) (.ok (answer, false)) →
        ConsultSound pread pc baseAddress (ehdr record) shtDynsym answer.out answer.call

/-- What is done after the regular table. -/
def consultDynamic (pread : Pread) (pc baseAddress : Nat) (elfHeader : Ehdr) (fuel : Nat) (regular : Found × Bool) :
    Machine Found := do
  if regular.2 then return regular.1
  else
    let dynamic ← consult fuel pread pc baseAddress elfHeader shtDynsym regular.1.out regular.1.call
    return dynamic.1

theorem getSymbolFromObjectFile_some {record : Bytes} {call₁ fuel : Nat}
    (hread : readFromOffsetExact pread 64 0 call = .ok ⟨some record, call₁⟩) :
    getSymbolFromObjectFile fuel pread pc out baseAddress call =
      consult fuel pread pc baseAddress (ehdr record) shtSymtab out call₁ >>=
        consultDynamic pread pc baseAddress (ehdr record) fuel := by
  unfold getSymbolFromObjectFile
  rw [hread]
  rfl

theorem getSymbolFromObjectFile_none {call₁ fuel : Nat} (hread : readFromOffsetExact pread 64 0 call = .ok ⟨none, call₁⟩) :
    getSymbolFromObjectFile fuel pread pc out baseAddress call = pure ⟨false, out, call₁⟩ := by
  unfold getSymbolFromObjectFile
  rw [hread]
  rfl

theorem steady_consultDynamic (regular : Found × Bool) :
    Steady fun fuel => consultDynamic pread pc baseAddress elfHeader fuel regular := by
  obtain ⟨answer, ended⟩ := regular
  cases ended with
  | true => exact steady_const _
  | false => exact steady_consult.bind fun dynamic => steady_const _

theorem consultDynamic_fault (answer : Found) :
    Gives (fun fuel => consultDynamic pread pc baseAddress elfHeader fuel (answer, false)) (.error fault) ↔
      Gives (fun fuel => consult fuel pread pc baseAddress elfHeader shtDynsym answer.out answer.call) (.error fault) :=
  gives_bind_pure_error steady_consult _

/-! ### The answer -/

/-- The answer is the name of a symbol of the pc, in the piece of the table that is read at the cursor. -/
def NamedAt (pread : Pread) (pc : Nat) (out : Bytes) (baseAddress : Nat) (strtab symtab : Shdr)
    (numSymbols : Nat) (s : Cursor) (answer : Found) : Prop :=
  s.i < numSymbols ∧ ∃ buf record, (symbolRead pread symtab numSymbols s).bytes = some buf ∧
    record ∈ records 24 (buf.length / 24) buf ∧ contains pc baseAddress (sym record) = true ∧
    readName pread out strtab (sym record) (symbolRead pread symtab numSymbols s).call = .ok answer

/-- At a cursor that the scan of the table gets to. -/
def NamedIn (pread : Pread) (pc baseAddress : Nat) (strtab symtab : Shdr) (answer : Found) : Prop :=
  ∃ out call s, Visits (symbolTurn pread pc out baseAddress strtab symtab (symtab.shSize / symtab.shEntsize)) ⟨0, call⟩ s ∧
    NamedAt pread pc out baseAddress strtab symtab (symtab.shSize / symtab.shEntsize) s answer

/-- In the table of the type that the section headers give, with the strings that it is linked to. -/
def NamedBy (pread : Pread) (pc baseAddress : Nat) (elfHeader : Ehdr) (type : Nat) (answer : Found) : Prop :=
  ∃ symtab record call call₁ call₂,
    Gives (fun fuel => getSectionHeaderByType fuel pread elfHeader.eShnum elfHeader.eShoff type call)
      (.ok ⟨some symtab, call₁⟩) ∧
    readFromOffsetExact pread 64 ((elfHeader.eShoff + symtab.shLink * 64) % 2 ^ 64) call₁ = .ok ⟨some record, call₂⟩ ∧
    NamedIn pread pc baseAddress (shdr record) symtab answer

/-- The answer is the name that was read for a symbol of the pc, in one of the two tables of the file. -/
def Named (pread : Pread) (pc baseAddress : Nat) (answer : Found) : Prop :=
  ∃ header call call₁, readFromOffsetExact pread 64 0 call = .ok ⟨some header, call₁⟩ ∧
    (NamedBy pread pc baseAddress (ehdr header) shtSymtab answer ∨
      NamedBy pread pc baseAddress (ehdr header) shtDynsym answer)

theorem length_readName {found : Found} {symbol : Sym} (hout : out.length < 2 ^ 63)
    (h : readName pread out strtab symbol call = .ok found) : found.out.length = out.length := by
  have hlength := @length_readLoop pread out.length ((strtab.shOffset + symbol.stName) % 2 ^ 64) call out.length []
    (Nat.zero_le _)
  unfold readName at h
  rw [readFromOffset_ok hout] at h
  dsimp only [Bind.bind, Except.bind] at h
  split at h
  · cases h
    exact List.length_replicate
  · cases h
    dsimp only
    rw [List.length_append, List.length_drop]
    cases hbytes : (readLoop pread out.length ((strtab.shOffset + symbol.stName) % 2 ^ 64) out.length [] call).bytes with
    | none => exact Nat.zero_add _
    | some buf => exact Nat.add_sub_cancel' (hlength buf hbytes)

/-- The buffer keeps its size, and a symbol is only found with its name. -/
theorem symbolTurn_ok {found : Found} (hout : out.length < 2 ^ 63)
    (h : Turn.result (symbolTurn pread pc out symbolOffset strtab symtab numSymbols s) = some (.ok found)) :
    found.out.length = out.length ∧
      (found.found = true → NamedAt pread pc out symbolOffset strtab symtab numSymbols s found) := by
  by_cases hlt : s.i < numSymbols
  · rw [symbolTurn_eq hlt] at h
    cases hbytes : (symbolRead pread symtab numSymbols s).bytes with
    | none =>
      rw [hbytes] at h
      cases h
    | some buf =>
      rw [hbytes] at h
      dsimp only at h
      split at h
      · cases hfind : (records 24 (buf.length / 24) buf).find? fun record => contains pc symbolOffset (sym record) with
        | none =>
          rw [hfind] at h
          cases h
        | some record =>
          rw [hfind] at h
          dsimp only at h
          cases hname : readName pread out strtab (sym record) (symbolRead pread symtab numSymbols s).call with
          | error fault =>
            rw [hname] at h
            cases h
          | ok found' =>
            rw [hname] at h
            cases h
            have hcontains := List.find?_some (p := fun record => contains pc symbolOffset (sym record)) hfind
            exact ⟨length_readName hout hname,
              fun _ => ⟨hlt, buf, record, hbytes, List.mem_of_find?_eq_some hfind, hcontains, hname⟩⟩
      · cases h
  · rw [symbolTurn_past (Nat.le_of_not_lt hlt)] at h
    cases h
    exact ⟨rfl, fun hc => nomatch hc⟩

theorem findSymbol_ok {found : Found} (hout : out.length < 2 ^ 63)
    (h : Gives (fun fuel => findSymbol fuel pread pc out symbolOffset strtab symtab call) (.ok found)) :
    found.out.length = out.length ∧ (found.found = true → NamedIn pread pc symbolOffset strtab symtab found) := by
  unfold findSymbol at h
  by_cases hentsize : symtab.shEntsize = 0
  · simp only [if_pos hentsize] at h
    obtain ⟨fuel, hc⟩ := h
    cases hc
  · simp only [if_neg hentsize] at h
    obtain ⟨t, hvisits, hresult⟩ := loop_eq_some_iff.mp h
    obtain ⟨hlength, hnamed⟩ := symbolTurn_ok hout hresult
    exact ⟨hlength, fun hfound => ⟨out, call, t, hvisits, hnamed hfound⟩⟩

theorem consult_ok {answer : Found} {ended : Bool} (hout : out.length < 2 ^ 63)
    (h : Gives (fun fuel => consult fuel pread pc baseAddress elfHeader type out call) (.ok (answer, ended))) :
    answer.out.length = out.length ∧ (answer.found = true → NamedBy pread pc baseAddress elfHeader type answer) := by
  rw [consult_eq] at h
  obtain ⟨⟨header, call₁⟩, hheader, hsection⟩ := (gives_bind_ok (steady_loop _ _) steady_consultSection).mp h
  cases header with
  | none =>
    obtain ⟨fuel, heq⟩ := hsection
    cases heq
    exact ⟨rfl, fun hc => nomatch hc⟩
  | some symtab =>
    obtain ⟨⟨bytes, call₂⟩, hread⟩ :=
      readFromOffsetExact_ok (show 64 < 2 ^ 63 by decide) pread ((elfHeader.eShoff + symtab.shLink * 64) % 2 ^ 64) call₁
    cases bytes with
    | none =>
      simp only [consultSection_none hread] at hsection
      obtain ⟨fuel, heq⟩ := hsection
      cases heq
      exact ⟨rfl, fun hc => nomatch hc⟩
    | some record =>
      simp only [consultSection_some hread] at hsection
      obtain ⟨found, hfound, heq⟩ := (gives_bind_pure_ok steady_findSymbol _).mp hsection
      cases heq
      obtain ⟨hlength, hnamed⟩ := findSymbol_ok hout hfound
      exact ⟨hlength, fun hfound => ⟨symtab, record, call, call₁, call₂, hheader, hread, hnamed hfound⟩⟩

/-- The tables that are consulted, the second one only if the first one is no end, are sound or there is a fault. -/
theorem consultBoth_fault (hout : out.length < 2 ^ 63) :
    (∃ fault, Gives (fun fuel => consult fuel pread pc baseAddress elfHeader shtSymtab out call >>=
      consultDynamic pread pc baseAddress elfHeader fuel) (.error fault)) ↔
        ¬ ConsultSound pread pc baseAddress elfHeader shtSymtab out call ∨
          ∃ answer,
            Gives (fun fuel => consult fuel pread pc baseAddress elfHeader shtSymtab out call) (.ok (answer, false)) ∧
            ¬ ConsultSound pread pc baseAddress elfHeader shtDynsym answer.out answer.call := by
  have hsteady : Steady fun fuel => consult fuel pread pc baseAddress elfHeader shtSymtab out call := steady_consult
  constructor
  · rintro ⟨fault, h⟩
    rcases (gives_bind_error hsteady steady_consultDynamic).mp h with hfault | ⟨⟨first, ended⟩, hfirst, hfault⟩
    · exact Or.inl ((consult_fault hout).mp ⟨fault, hfault⟩)
    · cases ended with
      | true =>
        obtain ⟨fuel, hc⟩ := hfault
        cases hc
      | false =>
        have hlength : first.out.length < 2 ^ 63 := (consult_ok hout hfirst).1.symm ▸ hout
        exact Or.inr ⟨first, hfirst, (consult_fault hlength).mp ⟨fault, (consultDynamic_fault first).mp hfault⟩⟩
  · rintro (hunsound | ⟨answer, hanswer, hunsound⟩)
    · obtain ⟨fault, hfault⟩ := (consult_fault hout).mpr hunsound
      exact ⟨fault, (gives_bind_error hsteady steady_consultDynamic).mpr (Or.inl hfault)⟩
    · have hlength : answer.out.length < 2 ^ 63 := (consult_ok hout hanswer).1.symm ▸ hout
      obtain ⟨fault, hfault⟩ := (consult_fault hlength).mpr hunsound
      refine ⟨fault, (gives_bind_error hsteady steady_consultDynamic).mpr (Or.inr ⟨_, hanswer, ?_⟩)⟩
      exact (consultDynamic_fault answer).mpr hfault

theorem consultBoth_ok {answer : Found} (hout : out.length < 2 ^ 63)
    (h : Gives (fun fuel => consult fuel pread pc baseAddress elfHeader shtSymtab out call >>=
      consultDynamic pread pc baseAddress elfHeader fuel) (.ok answer)) :
    answer.found = true → NamedBy pread pc baseAddress elfHeader shtSymtab answer ∨
      NamedBy pread pc baseAddress elfHeader shtDynsym answer := by
  have hsteady : Steady fun fuel => consult fuel pread pc baseAddress elfHeader shtSymtab out call := steady_consult
  obtain ⟨⟨first, ended⟩, hfirst, hrest⟩ := (gives_bind_ok hsteady steady_consultDynamic).mp h
  cases ended with
  | true =>
    obtain ⟨fuel, heq⟩ := hrest
    cases heq
    exact fun hfound => Or.inl ((consult_ok hout hfirst).2 hfound)
  | false =>
    have hlength : first.out.length < 2 ^ 63 := (consult_ok hout hfirst).1.symm ▸ hout
    obtain ⟨⟨second, ended⟩, hsecond, heq⟩ := (gives_bind_pure_ok steady_consult Prod.fst).mp hrest
    cases heq
    exact fun hfound => Or.inr ((consult_ok hlength hsecond).2 hfound)

theorem getSymbolFromObjectFile_named {answer : Found} (hout : out.length < 2 ^ 63)
    (h : Gives (fun fuel => getSymbolFromObjectFile fuel pread pc out baseAddress call) (.ok answer))
    (hfound : answer.found = true) :
    Named pread pc baseAddress answer := by
  obtain ⟨⟨bytes, call₁⟩, hread⟩ := readFromOffsetExact_ok (show 64 < 2 ^ 63 by decide) pread 0 call
  cases bytes with
  | none =>
    simp only [getSymbolFromObjectFile_none hread] at h
    obtain ⟨fuel, heq⟩ := h
    cases heq
    cases hfound
  | some record =>
    simp only [getSymbolFromObjectFile_some hread] at h
    exact ⟨record, call, call₁, hread, consultBoth_ok hout h hfound⟩

/-- The call neither fails an assertion nor divides by zero, and it says that it has found the symbol only with the name
    of one. -/
def Survives (pread : Pread) (pc : Nat) (out : Bytes) (baseAddress call : Nat) : Prop :=
  ∀ fuel r, getSymbolFromObjectFile fuel pread pc out baseAddress call = some r →
    ∃ answer, r = .ok answer ∧ (answer.found = true → Named pread pc baseAddress answer)

/-! ### A file that is whole -/

section
variable {file : File}

theorem sectionsSound_of_inside (hholds : Holds file pread) (hinside : shOffset + 64 * shNum ≤ file.content.length) :
    SectionsSound pread shNum shOffset type call := by
  intro s buf _ hlt hbuf
  have hsize := file.size_lt
  have hdense := @dense_sectionTable file shNum shOffset type (by omega)
  obtain ⟨buf', m, hbytes, hlength, -⟩ := hdense.whole_piece hinside hlt
  have hread : (sectionRead pread shNum shOffset s).bytes = (sectionTable file shNum shOffset type).bytes s.i :=
    bytes_readLoop hholds (by omega) (Nat.mod_lt _ (by decide))
  rw [hread, hbytes] at hbuf
  cases hbuf
  exact ⟨m, hlength⟩

theorem symbolsSound_of_table (hholds : Holds file pread) (h : SymbolTable file symtab) :
    SymbolsSound pread pc out symbolOffset strtab symtab call := by
  intro s _ hlt
  have hsize := file.size_lt
  have hinside := h.inside
  have hdense := @dense_symbolTable file pc symbolOffset symtab h.entsize h.count (by omega)
  have hfits : symtab.shOffset + 24 * (symtab.shSize / symtab.shEntsize) ≤ file.content.length := by
    rw [h.entsize]
    omega
  obtain ⟨buf, m, hbytes, hlength, -⟩ := hdense.whole_piece hfits hlt
  have hread : (symbolRead pread symtab (symtab.shSize / symtab.shEntsize) s).bytes =
      (symbolTable file pc symbolOffset symtab).bytes s.i := bytes_readLoop hholds (by omega) (Nat.mod_lt _ (by decide))
  exact ⟨buf, hread.trans hbytes, m, hlength⟩

theorem consultSound_of_whole (hholds : Holds file pread) (h : WholeTables file)
    (htype : type = shtSymtab ∨ type = shtDynsym) :
    ConsultSound pread pc baseAddress file.ehdr type out call := by
  refine ⟨sectionsSound_of_inside hholds h.sections, fun symtab call₁ record call₂ hgives _ => ?_⟩
  obtain ⟨fuel, call', hheader⟩ := getSectionHeaderByType_eq hholds h.sections type call
  obtain ⟨fuel', hgives⟩ := hgives
  have hfind := congrArg Section.header (Except.ok.inj ((steady_loop _ _).unique hheader hgives))
  have hbeq := @List.find?_some _ (fun header : Shdr => header.shType == type) _ _ hfind
  have hsymtab : SymbolTable file symtab := by
    refine h.tables symtab (List.mem_of_find?_eq_some hfind) ?_
    rwa [beq_iff_eq.mp hbeq]
  refine ⟨?_, symbolsSound_of_table hholds hsymtab⟩
  rw [hsymtab.entsize]
  decide

/-- A file whose tables are whole is sound. -/
theorem objectSound_of_whole (hholds : Holds file pread) (h : WholeTables file) :
    ObjectSound pread pc out baseAddress call := by
  intro record call₁ hread
  obtain ⟨call', hheader⟩ := @readHeader file pread call hholds h.header
  rw [hheader] at hread
  cases hread
  exact ⟨consultSound_of_whole hholds h (Or.inl rfl), fun answer _ => consultSound_of_whole hholds h (Or.inr rfl)⟩

theorem wholeTables_tableFile : WholeTables tableFile := by
  have hheaders : tableFile.headers = [⟨2, 192, 960, 1, 24⟩, ⟨3, 1152, 3, 0, 0⟩] := by decide +kernel
  refine ⟨by decide +kernel, by decide +kernel, fun symtab hmem htype => ?_⟩
  rw [hheaders] at hmem
  rcases List.mem_cons.mp hmem with rfl | hmem
  · refine ⟨rfl, by decide, by decide +kernel, ⟨3, 1152, 3, 0, 0⟩, ?_, by decide +kernel⟩
    rw [hheaders]
    rfl
  · rw [List.mem_singleton.mp hmem] at htype
    exact absurd htype (by decide)

end

/-- The process survives the call exactly if every table that it consults is sound. -/
theorem survives_iff (hout : out.length < 2 ^ 63) :
    Survives pread pc out baseAddress call ↔ ObjectSound pread pc out baseAddress call := by
  obtain ⟨⟨bytes, call₁⟩, hread⟩ := readFromOffsetExact_ok (show 64 < 2 ^ 63 by decide) pread 0 call
  cases bytes with
  | none =>
    constructor
    · intro _ record call₁' hread'
      rw [hread] at hread'
      cases hread'
    · intro _ fuel r hr
      rw [getSymbolFromObjectFile_none hread] at hr
      cases hr
      exact ⟨_, rfl, fun hc => nomatch hc⟩
  | some record =>
    unfold Survives
    simp only [getSymbolFromObjectFile_some hread]
    constructor
    · intro hsurvives record' call₁' hread'
      rw [hread] at hread'
      cases hread'
      have hnone := mt (consultBoth_fault hout).mpr (show ¬ ∃ fault, Gives _ (.error fault) by
        rintro ⟨fault, fuel, h⟩
        obtain ⟨answer, hc, -⟩ := hsurvives fuel _ h
        cases hc)
      refine ⟨Classical.byContradiction fun hunsound => hnone (Or.inl hunsound), fun answer hanswer => ?_⟩
      exact Classical.byContradiction fun hunsound => hnone (Or.inr ⟨answer, hanswer, hunsound⟩)
    · intro hsound fuel r hr
      obtain ⟨hregular, hdynamic⟩ := hsound record call₁ hread
      rcases r with fault | answer
      · rcases (consultBoth_fault hout).mp ⟨fault, fuel, hr⟩ with hunsound | ⟨answer, hanswer, hunsound⟩
        · exact absurd hregular hunsound
        · exact absurd (hdynamic answer hanswer) hunsound
      · have hgives : getSymbolFromObjectFile fuel pread pc out baseAddress call = some (.ok answer) := by
          rw [getSymbolFromObjectFile_some hread]
          exact hr
        exact ⟨answer, rfl, getSymbolFromObjectFile_named hout ⟨fuel, hgives⟩⟩

/-- Two bytes at most are read at a time, and the name of the last symbol is found. -/
theorem survives_iff_slowly : Survives (tableFile.slowly 2) 0x1008 [0, 0] 0 0 :=
  (survives_iff (by decide)).mpr (objectSound_of_whole (holds_slowly _ (by decide)) wholeTables_tableFile)

/-- An ELF header with one section, which is a symbol table, and everything else is 0, its `sh_entsize` too. -/
def zeroEntsize : File where
  content := List.replicate 40 0 ++ [64] ++ List.replicate 19 0 ++ [1] ++ List.replicate 3 0 ++
    List.replicate 4 0 ++ [2] ++ List.replicate 59 0
  size_lt := by simp

theorem not_survives : ¬ Survives zeroEntsize.pread 5 [0] 0 0 := by
  intro h
  obtain ⟨answer, hc, -⟩ := h 2 (.error .divisionByZero) (Eq.refl _)
  cases hc

end

end Glog.Symbolize
