import Glog.Symbolize.Entry
import Glog.Symbolize.Faults
import Glog.Symbolize.Mappings

/-! # What a pc is shown as

Without callbacks, and with room for two bytes, nothing outside of the buffer is accessed. The answer is the demangled name
of the symbol, or the name of an object file that cannot be opened with the place in it, and it is cut off at the end of the
buffer. -/

namespace Glog.Symbolize
open LogFile (Text)
open Lines Memory Run

/-! ### Text in the buffer -/

def bytes (text : Text) : Bytes := text.map Char.toUInt8

section
variable {size : Nat} {out : Cells UInt8} {l : Bytes} {source : Text} {digits : Buf 17} {value : UInt64}

theorem map_map_out : (out.map Char.ofUInt8).map Char.toUInt8 = out := by
  have hcell : (fun i => (Char.ofUInt8 (out.cell i)).toUInt8) = out.cell := funext fun i => toUInt8_ofUInt8 _
  unfold Cells.map
  dsimp only
  rw [hcell]

theorem appendString_eq (h : HasString 0 size out l) :
    appendString source size out = .ok (out.append 0 size (bytes source)) := by
  have hlength : ((out.map Char.ofUInt8).string '\x00' 0 size).length = (out.string 0 0 size).length := by
    have hstring : (out.map Char.ofUInt8).string (Char.ofUInt8 0) 0 size = (out.string 0 0 size).map Char.ofUInt8 :=
      map_string Char.ofUInt8 fun b => ofUInt8_eq_nul
    exact (congrArg List.length hstring).trans (List.length_map _)
  have hlt : (out.string 0 0 size).length < size := by
    rw [h.string_eq]
    exact h.length_lt
  rw [appendString, safeAppendString, hlength, if_pos hlt]
  dsimp only
  rw [map_write, map_strncpy, map_map_out]
  rfl

theorem appendHexNumber_eq (h : HasString 0 size out l) :
    appendHexNumber value digits size out = .ok (out.append 0 size (bytes (Nat.toDigits 16 value.toNat))) := by
  rw [← appendString_eq h, appendHexNumber, safeAppendHexNumber_eq, appendString]

theorem zero_notMem_toDigits (n : Nat) : 0 ∉ bytes (Nat.toDigits 16 n) := by
  intro hmem
  obtain ⟨c, hc, hzero⟩ := List.mem_map.mp hmem
  rw [← padded_zero] at hc
  exact absurd hzero (ne_of_isHex (isHex_of_mem_padded (by decide) (by decide) (List.mem_map_of_mem hc)) (by decide))

theorem take_append_take {α : Type} (n : Nat) (l l' : List α) : (l.take n ++ l').take n = (l ++ l').take n := by
  rw [List.take_append, List.take_append, List.take_take, Nat.min_self, List.length_take]
  congr 2
  omega

/-- A place in an object file. -/
def placeText (offset : UInt64) : Bytes := bytes ("+0x".toList ++ Nat.toDigits 16 offset.toNat ++ [')'])

theorem appendOffset_eq (h : HasString 0 size out l) (offset : UInt64) :
    ∃ out', appendOffset digits offset size out = .ok out' ∧
    Writes 0 size out out' ∧ HasString 0 size out' ((l ++ placeText offset).take (size - 1)) := by
  have hsize : 0 < size := Nat.lt_of_le_of_lt (Nat.zero_le _) h.length_lt
  have hlast := h.write_last
  have hplus := @HasString.append _ 0 (bytes "+0x".toList) _ _ _ _ hlast (by decide)
  have hhex := hplus.append (zero_notMem_toDigits offset.toNat)
  rw [take_append_take] at hhex
  have hparen := @HasString.append _ 0 (bytes [')']) _ _ _ _ hhex (by decide)
  have heq : appendOffset digits offset size out =
      .ok ((((out.write (size - 1) 0).append 0 size (bytes "+0x".toList)).append 0 size
      (bytes (Nat.toDigits 16 offset.toNat))).append 0 size (bytes [')'])) := by
    rw [appendOffset, appendString_eq hlast]
    dsimp only [Bind.bind, Except.bind]
    rw [appendHexNumber_eq hplus]
    dsimp only
    exact appendString_eq hhex
  refine ⟨_, heq, ?_, ?_⟩
  · exact (((write_writes (Nat.zero_le _) (by omega)).trans (append_writes hsize)).trans (append_writes hsize)).trans
      (append_writes hsize)
  · rw [take_append_take] at hparen
    simpa [placeText, bytes] using hparen

end

/-! ### The object file -/

/-- What is known when the object file has been looked for. -/
structure Sought (request : Request) (opened : Opened) : Prop where
  fd : opened.fd = opened.tried.bind request.openFile
  free : ∀ name, opened.tried = some name → 0 ∉ name
  kept : opened.fd.isSome ∨ opened.tried = none → opened.outFileName = request.outFileName
  copied : ∀ name, opened.tried = some name → opened.fd = none →
    opened.outFileName = (request.outFileName.strncpy 0 0 name request.outFileNameSize).write
      (request.outFileNameSize - 1) 0

section
variable {maps mem : Pread} {request : Request} {s : MapsState} {opened : Opened}

theorem sought_of_untried {startAddress baseAddress : UInt64} :
    Sought request ⟨none, none, startAddress, baseAddress, request.outFileName⟩ := ⟨rfl, nofun, fun _ => rfl, nofun⟩

theorem mapsTurn_sought (h : Turn.result (mapsTurn maps mem request s) = some (.ok opened)) : Sought request opened := by
  unfold mapsTurn at h
  split at h
  · cases h
  · cases h
    exact sought_of_untried
  · split at h
    · cases h
      exact sought_of_untried
    · split at h
      · cases h
      · split at h
        · cases h
        · split at h
          · cases h
          · split at h
            · cases h
              exact sought_of_untried
            · rename_i cursor hname
              have hfree : 0 ∉ cursor.takeWhile (· ≠ 0) := fun hmem => by simpa using List.mem_takeWhile_imp hmem
              dsimp only at h
              split at h
              · rename_i hopen
                cases h
                refine ⟨hopen.symm, ?_, ?_, ?_⟩
                · intro name hname
                  cases hname
                  exact hfree
                · simp
                · intro name hname _
                  cases hname
                  rfl
              · rename_i fd hopen
                cases h
                refine ⟨hopen.symm, ?_, fun _ => rfl, ?_⟩
                · intro name hname
                  cases hname
                  exact hfree
                · intro name _ hnone
                  cases hnone

theorem openObjectFile_sought {fuel : Nat} {host : Host} {pc : UInt64} {outFileName : Cells UInt8} {size : Nat}
    (hcallback : host.openObjectFileCallback = none)
    (h : openObjectFile fuel host pc outFileName size = some (.ok opened)) :
    Sought ⟨pc, outFileName, size, host.openFile⟩ opened := by
  rw [openObjectFile, hcallback] at h
  dsimp only at h
  unfold openObjectFileContainingPcAndGetStartAddress at h
  split at h
  · obtain ⟨t, -, hresult⟩ := loop_eq_some_iff.mp ⟨fuel, h⟩
    exact mapsTurn_sought hresult
  · cases h
    exact sought_of_untried

end

/-! ### The symbol -/

section
variable {pread : Pread} {pc baseAddress : Nat} {Q : Bytes → Found → Prop}

/-- What holds of the buffer, before and after, where no symbol is found and where a name is read. -/
structure Answering (pread : Pread) (Q : Bytes → Found → Prop) : Prop where
  none : ∀ out call, Q out ⟨false, out, call⟩
  name : ∀ out strtab symbol call found, readName pread out strtab symbol call = .ok found → Q out found
  again : ∀ {out first second}, Q out first → first.found = false → Q first.out second → Q out second

theorem symbolTurn_answers (hq : Answering pread Q) {out : Bytes} {numSymbols : Nat} {strtab symtab : Shdr} {s : Cursor}
    {found : Found} (h : Turn.result (symbolTurn pread pc out baseAddress strtab symtab numSymbols s) = some (.ok found)) :
    Q out found := by
  by_cases hlt : s.i < numSymbols
  · rw [symbolTurn_eq hlt] at h
    split at h
    · cases h
    · split at h
      · split at h
        · rename_i record hrecord
          cases hname : readName pread out strtab (sym record) (symbolRead pread symtab numSymbols s).call with
          | error fault =>
            rw [hname] at h
            cases h
          | ok found' =>
            rw [hname] at h
            cases h
            exact hq.name out strtab _ _ _ hname
        · cases h
      · cases h
  · rw [symbolTurn_past (Nat.le_of_not_lt hlt)] at h
    cases h
    exact hq.none out _

theorem findSymbol_answers (hq : Answering pread Q) {out : Bytes} {call : Nat} {strtab symtab : Shdr} {found : Found}
    (h : Gives (fun fuel => findSymbol fuel pread pc out baseAddress strtab symtab call) (.ok found)) : Q out found := by
  unfold findSymbol at h
  by_cases hentsize : symtab.shEntsize = 0
  · simp only [if_pos hentsize] at h
    obtain ⟨fuel, hc⟩ := h
    cases hc
  · simp only [if_neg hentsize] at h
    obtain ⟨t, -, hresult⟩ := loop_eq_some_iff.mp h
    exact symbolTurn_answers hq hresult

theorem consult_answers (hq : Answering pread Q) {out : Bytes} {elfHeader : Ehdr} {type call : Nat} {answer : Found}
    {ended : Bool}
    (h : Gives (fun fuel => consult fuel pread pc baseAddress elfHeader type out call) (.ok (answer, ended))) :
    Q out answer ∧ (ended = false → answer.found = false) := by
  rw [consult_eq] at h
  obtain ⟨⟨header, call₁⟩, -, hsection⟩ := (gives_bind_ok (steady_loop _ _) steady_consultSection).mp h
  cases header with
  | none =>
    obtain ⟨fuel, heq⟩ := hsection
    cases heq
    exact ⟨hq.none out call₁, fun _ => rfl⟩
  | some symtab =>
    obtain ⟨⟨bytes, call₂⟩, hread⟩ := readFromOffsetExact_ok (show 64 < 2 ^ 63 by decide) pread
      ((elfHeader.eShoff + symtab.shLink * 64) % 2 ^ 64) call₁
    cases bytes with
    | none =>
      simp only [consultSection_none hread] at hsection
      obtain ⟨fuel, heq⟩ := hsection
      cases heq
      exact ⟨hq.none out call₂, fun _ => rfl⟩
    | some record =>
      simp only [consultSection_some hread] at hsection
      obtain ⟨found, hfound, heq⟩ := (gives_bind_pure_ok steady_findSymbol _).mp hsection
      cases heq
      exact ⟨findSymbol_answers hq hfound, id⟩

/-- What holds of every answer that is read holds of the one that the object file gives. -/
theorem getSymbolFromObjectFile_answers (hq : Answering pread Q) {fuel : Nat} {out : Bytes} {call : Nat} {answer : Found}
    (h : getSymbolFromObjectFile fuel pread pc out baseAddress call = some (.ok answer)) : Q out answer := by
  obtain ⟨⟨bytes, call₁⟩, hread⟩ := readFromOffsetExact_ok (show 64 < 2 ^ 63 by decide) pread 0 call
  cases bytes with
  | none =>
    rw [getSymbolFromObjectFile_none hread] at h
    cases h
    exact hq.none out _
  | some record =>
    rw [getSymbolFromObjectFile_some hread] at h
    obtain ⟨⟨first, ended⟩, hfirst, hrest⟩ := (gives_bind_ok steady_consult steady_consultDynamic).mp ⟨fuel, h⟩
    obtain ⟨hq₁, hunfound⟩ := consult_answers hq hfirst
    cases ended with
    | true =>
      obtain ⟨fuel, heq⟩ := hrest
      cases heq
      exact hq₁
    | false =>
      obtain ⟨⟨second, ended⟩, hsecond, heq⟩ := (gives_bind_pure_ok steady_consult Prod.fst).mp hrest
      cases heq
      exact hq.again hq₁ (hunfound rfl) (consult_answers hq hsecond).1

/-- The buffer keeps its length; a name is terminated, and without one the buffer is as before or zero. -/
structure Answer (out : Bytes) (found : Found) : Prop where
  length : found.out.length = out.length
  terminated : found.found = true → 0 ∈ found.out
  kept : found.found = false → found.out = out ∨ found.out = List.replicate out.length 0

theorem answering_answer {n : Nat} (hn : n < 2 ^ 63) :
    Answering pread fun out found => out.length = n → Answer out found where
  none out call := fun _ => ⟨rfl, nofun, fun _ => Or.inl rfl⟩
  name out strtab symbol call found h := fun hlength => by
    have hout : out.length < 2 ^ 63 := hlength ▸ hn
    refine ⟨length_readName hout h, fun hfound => ?_, fun hunfound => ?_⟩
    all_goals
      unfold readName at h
      rw [readFromOffset_ok hout] at h
      dsimp only [Bind.bind, Except.bind] at h
      split at h
    · cases h
      cases hfound
    · rename_i hname
      cases h
      exact Classical.byContradiction fun hmem => hname (Or.inr hmem)
    · cases h
      exact Or.inr rfl
    · cases h
      cases hunfound
  again hfirst hunfound hsecond := fun hlength => by
    have h₁ := hfirst hlength
    have h₂ := hsecond (h₁.length.trans hlength)
    refine ⟨h₂.length.trans h₁.length, h₂.terminated, fun hnone => ?_⟩
    rcases h₂.kept hnone with hkept | hzero
    · rw [hkept]
      exact h₁.kept hunfound
    · rw [hzero, h₁.length]
      exact Or.inr rfl

end

/-! ### The name -/

/-- What a name is shown as: the demangled one, if there is one and there is room for it. -/
inductive ShownAs (demangled : Nat → Char) (size : Nat) (name : Bytes) (h : 0 ∉ name) : Bytes → Prop
  | demangled {text : Text} : (Demangle.demangle (mangledName name h) (some demangled) 256).1 = true →
      Demangle.cString 256 (Demangle.demangle (mangledName name h) (some demangled) 256).2 = some text →
        text.length + 1 ≤ size →
      ShownAs demangled size name h ((bytes text).takeWhile (· ≠ 0))
  | long {text : Text} : (Demangle.demangle (mangledName name h) (some demangled) 256).1 = true →
      Demangle.cString 256 (Demangle.demangle (mangledName name h) (some demangled) 256).2 = some text →
        size < text.length + 1 →
      ShownAs demangled size name h name
  | mangled : (Demangle.demangle (mangledName name h) (some demangled) 256).1 = false → ShownAs demangled size name h name

section
variable {demangled : Nat → Char} {size : Nat} {out out' : Cells UInt8} {name : Bytes}

theorem length_cString {n : Nat} {f : Nat → Char} {text : Text} (h : Demangle.cString n f = some text) :
    text.length < n := by
  unfold Demangle.cString at h
  obtain ⟨i, hi, rfl⟩ := Option.map_eq_some_iff.mp h
  rw [List.length_map, List.length_range]
  exact List.mem_range.mp (List.mem_of_find?_eq_some hi)

/-- The demangler leaves its array without a terminator, although it succeeds. -/
def Unterminated (demangled : Nat → Char) (name : Bytes) (h : 0 ∉ name) : Prop :=
  (Demangle.demangle (mangledName name h) (some demangled) 256).1 = true ∧
    Demangle.cString 256 (Demangle.demangle (mangledName name h) (some demangled) 256).2 = none

theorem slice_stored {l : Bytes} (hroom : l.length + 1 ≤ size) :
    ∃ rest, ((out.store 0 l).write l.length 0).slice 0 size = l ++ 0 :: rest := by
  have hfront : ((out.store 0 l).write l.length 0).slice 0 l.length = l := by
    rw [slice_congr (m := out.store 0 l), slice_store]
    exact fun k hk => cell_write_of_ne (by omega)
  refine ⟨((out.store 0 l).write l.length 0).slice (l.length + 1) (size - (l.length + 1)), ?_⟩
  conv_lhs => rw [show size = l.length + (1 + (size - (l.length + 1))) by omega]
  rw [slice_add, hfront, slice_add, Nat.zero_add]
  congr 1
  exact congrArg (· :: _) cell_write_self

theorem demangleInplace_ok (hname : HasString 0 size out name) (h : demangleInplace demangled size out = .ok out') :
    Writes 0 size out out' ∧ ∃ text, ShownAs demangled size name hname.free text ∧ HasString 0 size out' text := by
  have hstring := hname.string_eq
  subst hstring
  unfold demangleInplace at h
  dsimp only at h
  split at h
  · rename_i haccepts
    split at h
    · cases h
    · rename_i text htext
      split at h
      · rename_i hroom
        split at h
        · cases h
          obtain ⟨rest, hslice⟩ := @slice_stored size out (bytes text) (by rw [bytes, List.length_map]; exact hroom)
          rw [bytes, List.length_map] at hslice
          refine ⟨?_, _, .demangled haccepts htext hroom, ?_⟩
          · refine (store_writes.mono (Nat.le_refl 0) ?_).trans (write_writes (Nat.zero_le _) (by omega))
            rw [List.length_map]
            omega
          · have hmem : 0 ∈ (((out.store 0 (text.map Char.toUInt8)).write text.length 0).slice 0 size) := by
              rw [hslice]
              exact List.mem_append_right _ List.mem_cons_self
            have hholds := hasString_of_mem hmem
            rwa [Cells.string, hslice, takeWhile_terminated] at hholds
        · cases h
      · rename_i hroom
        cases h
        exact ⟨.refl .., _, .long haccepts htext (by omega), hname⟩
  · rename_i hrejects
    cases h
    exact ⟨.refl .., _, .mangled (by simpa using hrejects), hname⟩

theorem demangleInplace_error {fault : SymbolizeFault} (hname : HasString 0 size out name)
    (h : demangleInplace demangled size out = .error fault) :
    fault = .outOfBounds ∧ Unterminated demangled name hname.free := by
  have hstring := hname.string_eq
  subst hstring
  unfold demangleInplace at h
  dsimp only at h
  split at h
  · rename_i haccepts
    split at h
    · rename_i hnone
      cases h
      exact ⟨rfl, haccepts, hnone⟩
    · rename_i text htext
      split at h
      · rw [if_pos (length_cString htext)] at h
        cases h
      · cases h
  · cases h

end

/-! ### The whole -/

section
variable {ε α β : Type} {f : ε → SymbolizeFault} {k : α → SymbolizeM β} {r : Except SymbolizeFault β}

theorem of_bind_cases {x : Option (Except ε α)} (h : (SymbolizeM.of f x >>= k) = some r) :
    (∃ e, x = some (.error e) ∧ r = .error (f e)) ∨ ∃ a, x = some (.ok a) ∧ k a = some r := by
  rcases x with - | (e | a)
  · cases h
  · cases h
    exact .inl ⟨e, rfl, rfl⟩
  · exact .inr ⟨a, rfl, h⟩

theorem done_bind_cases {x : Except SymbolizeFault α} (h : (SymbolizeM.done x >>= k) = some r) :
    (∃ e, x = .error e ∧ r = .error e) ∨ ∃ a, x = .ok a ∧ k a = some r := by
  rcases x with e | a
  · cases h
    exact .inl ⟨e, rfl, rfl⟩
  · exact .inr ⟨a, rfl, h⟩

end

section
variable {fuel size fd : Nat} {host : Host} {pc : UInt64} {opened : Opened} {out out' : Cells UInt8}
    {r : Except SymbolizeFault (Bool × Cells UInt8)}

/-- The buffer before the object file is read. -/
def blank (size : Nat) : Bytes := '('.toUInt8 :: List.replicate (size - 1) 0

/-- What the symbol of the pc is, in an object file that is open. -/
def Answers (fuel : Nat) (host : Host) (pc : UInt64) (size fd : Nat) (baseAddress : UInt64)
    (answer : Except Fault Found) : Prop :=
  ∃ elfType call, fileGetElfType (host.object fd) 0 = .ok (some elfType, call) ∧
    getSymbolFromObjectFile fuel (host.object fd) pc.toNat (blank size) baseAddress.toNat call = some answer

/-- The text that is shown of the pc, if any, with the object file that has been looked for. -/
inductive Shows (fuel : Nat) (host : Host) (pc : UInt64) (size : Nat) (opened : Opened) : Option Bytes → Prop
  | unknown : opened.tried = none → Shows fuel host pc size opened none
  | unnamed {name : Bytes} : opened.tried = some name → host.openFile name = none → name.take (size - 2) = [] →
      Shows fuel host pc size opened none
  | place {name : Bytes} : opened.tried = some name → host.openFile name = none → name.take (size - 2) ≠ [] →
      Shows fuel host pc size opened (some (('('.toUInt8 :: name ++ placeText (pc - opened.baseAddress)).take (size - 1)))
  | foreign {fd call : Nat} : opened.fd = some fd → fileGetElfType (host.object fd) 0 = .ok (none, call) →
      Shows fuel host pc size opened none
  | stripped {fd : Nat} {answer : Found} : opened.fd = some fd →
      Answers fuel host pc size fd opened.baseAddress (.ok answer) → answer.found = false →
        Shows fuel host pc size opened none
  | symbol {fd : Nat} {answer : Found} {name text : Bytes} (h : 0 ∉ name) : opened.fd = some fd →
      Answers fuel host pc size fd opened.baseAddress (.ok answer) → answer.found = true →
      Named (host.object fd) pc.toNat opened.baseAddress.toNat answer →
      0 ∈ answer.out → answer.out.takeWhile (· ≠ 0) = name → ShownAs host.demangled size name h text →
      Shows fuel host pc size opened (some text)

/-- What is known when the function returns or fails. -/
def Outcome (fuel : Nat) (host : Host) (pc : UInt64) (size : Nat) (out : Cells UInt8) (opened : Except MapsFault Opened) :
    Except SymbolizeFault (Bool × Cells UInt8) → Prop
  | .ok (shown, out') => Writes 0 size out out' ∧ ∃ found text, opened = .ok found ∧ Shows fuel host pc size found text ∧
      shown = text.isSome ∧ ∀ l ∈ text, HasString 0 size out' l
  | .error (.maps fault) => opened = .error fault
  | .error (.object fault) => ∃ found fd, opened = .ok found ∧ found.fd = some fd ∧
      Answers fuel host pc size fd found.baseAddress (.error fault)
  | .error .outOfBounds => ∃ found fd answer name h, opened = .ok found ∧ found.fd = some fd ∧
      Answers fuel host pc size fd found.baseAddress (.ok answer) ∧ answer.found = true ∧
        answer.out.takeWhile (· ≠ 0) = name ∧
      Unterminated host.demangled name h
  | .error _ => False

theorem fileGetElfType_ok (pread : Pread) (call : Nat) : ∃ answer, fileGetElfType pread call = .ok answer := by
  obtain ⟨read, hread⟩ := readFromOffsetExact_ok (show 64 < 2 ^ 63 by decide) pread 0 call
  rw [fileGetElfType, hread]
  dsimp only [Bind.bind, Except.bind]
  split
  · exact ⟨_, rfl⟩
  · split <;> exact ⟨_, rfl⟩

theorem length_blank (hroom : 2 ≤ size) : (blank size).length = size := by
  rw [blank, List.length_cons, List.length_replicate]
  omega

/-- Without a symbol the byte behind the first one is null. -/
theorem readOut_of_kept {l : Bytes} (hroom : 2 ≤ size) (hslice : out.slice 0 size = l)
    (hl : l = blank size ∨ l = List.replicate size 0) : readOut size 1 out = .ok 0 := by
  have hlt : 1 < l.length := by
    rw [← hslice, length_slice]
    exact hroom
  have hcell : out.cell 1 = l[1] := by
    subst hslice
    exact (getElem_slice hlt).symm
  have hzero : l[1] = 0 := by
    rcases hl with rfl | rfl
    · exact List.getElem_replicate _
    · exact List.getElem_replicate _
  rw [readOut, if_pos (by omega), hcell, hzero]

theorem symbolizeObject_outcome (hcallback : host.symbolizeCallback = none) (hroom : 2 ≤ size) (hsize : size < 2 ^ 63)
    (hfd : opened.fd = some fd) (hblank : out.slice 0 size = blank size)
    (h : symbolizeObject fuel host pc fd opened.startAddress opened.baseAddress size out = some r) :
    Outcome fuel host pc size out (.ok opened) r := by
  unfold symbolizeObject at h
  obtain ⟨fault, hfault, -⟩ | ⟨⟨elfType, call⟩, htype, h⟩ := of_bind_cases h
  · obtain ⟨answer, hok⟩ := fileGetElfType_ok (host.object fd) 0
    rw [hok] at hfault
    cases hfault
  replace htype := Option.some.inj htype
  cases elfType with
  | none =>
    cases h
    exact ⟨.refl .., opened, none, rfl, .foreign hfd htype, rfl, nofun⟩
  | some elfType =>
    have hback : ∀ relocation, callBack host fd pc relocation size out = (0, out) :=
      fun relocation => by rw [callBack, hcallback]
    simp only [hback, Nat.sub_zero, hblank] at h
    obtain ⟨fault, hfault, rfl⟩ | ⟨answer, hanswer, h⟩ := of_bind_cases h
    · exact ⟨opened, fd, rfl, hfd, elfType, call, htype, hfault⟩
    have hanswers : Answers fuel host pc size fd opened.baseAddress (.ok answer) := ⟨elfType, call, htype, hanswer⟩
    have hfacts := getSymbolFromObjectFile_answers (answering_answer hsize) hanswer (length_blank hroom)
    have hlength : answer.out.length = size := hfacts.length.trans (length_blank hroom)
    have hslice := slice_store (m := out.drop 0) (l := answer.out) 0
    have hwrites : Writes 0 size (out.drop 0) ((out.drop 0).store 0 answer.out) :=
      store_writes.mono (Nat.le_refl 0) (by omega)
    rw [hlength] at hslice
    by_cases hfound : answer.found = true
    · have hnamed := getSymbolFromObjectFile_named (by rw [length_blank hroom]; exact hsize) ⟨fuel, hanswer⟩ hfound
      rw [if_pos hfound] at h
      have hmem : 0 ∈ ((out.drop 0).store 0 answer.out).slice 0 size := by
        rw [hslice]
        exact hfacts.terminated hfound
      have hholds := hasString_of_mem hmem
      rw [Cells.string, hslice] at hholds
      obtain ⟨fault, hfault, rfl⟩ | ⟨symbol, hsymbol, h⟩ := done_bind_cases h
      · obtain ⟨rfl, hunterminated⟩ := demangleInplace_error hholds hfault
        exact ⟨opened, fd, answer, _, hholds.free, rfl, hfd, hanswers, hfound, rfl, hunterminated⟩
      · obtain ⟨hinplace, text, hshown, hstring⟩ := demangleInplace_ok hholds hsymbol
        cases h
        refine ⟨?_, opened, some text, rfl, ?_, rfl, ?_⟩
        · have hput := put_writes (hwrites.trans hinplace)
          rwa [Nat.zero_add, Nat.zero_add] at hput
        · exact .symbol hholds.free hfd hanswers hfound hnamed (hfacts.terminated hfound) rfl hshown
        · intro l hl
          cases hl
          have hput := @HasString.put _ 0 _ 0 out size symbol hstring [] rfl List.not_mem_nil
          rwa [Nat.zero_add] at hput
    · rw [if_neg hfound] at h
      have hunfound : answer.found = false := by simpa using hfound
      have hkept := hfacts.kept hunfound
      rw [length_blank hroom] at hkept
      have hput := @slice_put _ 0 size out ((out.drop 0).store 0 answer.out)
      rw [hslice, Nat.zero_add] at hput
      rw [Nat.zero_add, readOut_of_kept hroom hput hkept] at h
      cases h
      refine ⟨?_, opened, none, rfl, .stripped hfd hanswers hunfound, rfl, nofun⟩
      have hput := put_writes hwrites
      rwa [Nat.zero_add, Nat.zero_add] at hput

theorem Outcome.of_writes {found : Except MapsFault Opened} (h : Outcome fuel host pc size out' found r)
    (hwrites : Writes 0 size out out') :
    Outcome fuel host pc size out found r := by
  cases r with
  | ok answer => exact ⟨hwrites.trans h.1, h.2⟩
  | error fault => cases fault <;> exact h

/-- The parenthesis is the first character, and the rest of the buffer is null. -/
theorem appendString_parenthesis (hroom : 2 ≤ size) : ∃ out', appendString ['('] size (out.write 0 0) = .ok out' ∧
    Writes 0 size out out' ∧ out'.slice 0 size = blank size := by
  have hempty : HasString 0 size (out.write 0 0) ([] : Bytes) := by
    refine ⟨List.not_mem_nil, (out.write 0 0).slice 1 (size - 1), ?_⟩
    conv_lhs => rw [show size = 1 + (size - 1) by omega]
    rw [slice_add]
    exact congrArg (· :: _) cell_write_self
  refine ⟨_, appendString_eq hempty, (write_writes (Nat.zero_le _) (by omega)).trans (append_writes (by omega)), ?_⟩
  rw [Cells.append, slice_write_last (by omega), hempty.string_eq, List.length_nil, Nat.sub_zero, slice_strncpy]
  obtain ⟨n, rfl⟩ := Nat.exists_eq_add_of_le hroom
  rw [show 2 + n = n + 2 by omega]
  simp [blank, bytes, List.take_replicate, ← List.replicate_succ']

/-- The name of a file that could not be opened. -/
theorem hasString_tried {name : Bytes} (hroom : 2 ≤ size) (hblank : out.slice 0 size = blank size) (hfree : 0 ∉ name)
    (hcopied : opened.outFileName = ((out.drop 1).strncpy 0 0 name (size - 1)).write (size - 1 - 1) 0) :
    Writes 0 size out (out.put 1 opened.outFileName) ∧
      HasString 0 size (out.put 1 opened.outFileName) ('('.toUInt8 :: name.take (size - 2)) ∧
      ((out.put 1 opened.outFileName).cell 1 = 0 ↔ name.take (size - 2) = []) := by
  have hsize : 1 + (size - 1) = size := by omega
  have hpart : HasString 0 (size - 1) opened.outFileName (name.take (size - 2)) := by
    rw [hcopied]
    exact hasString_strncpy (by omega) hfree
  have hwrites : Writes 0 (size - 1) (out.drop 1) opened.outFileName := by
    rw [hcopied]
    exact (strncpy_writes.mono (Nat.le_refl 0) (by omega)).trans (write_writes (Nat.zero_le _) (by omega))
  have hfirst : out.slice 0 1 = ['('.toUInt8] := (slice_split (l := ['('.toUInt8]) hblank).1
  have hstring := hpart.put hfirst (by decide)
  have hput := put_writes hwrites
  rw [hsize] at hstring hput
  refine ⟨hput.mono (Nat.zero_le _) (Nat.le_refl _), hstring, ?_⟩
  rw [← hpart.first_eq_nul]
  exact iff_of_eq (congrArg (· = 0) (@cell_put _ 1 0 out opened.outFileName))

/-- Nothing has been put into the buffer. -/
theorem put_drop (hroom : 2 ≤ size) (hblank : out.slice 0 size = blank size) :
    Writes 0 size out (out.put 1 (out.drop 1)) ∧ (out.put 1 (out.drop 1)).slice 0 size = blank size := by
  constructor
  · have hdrop : Writes 0 (size - 1) (out.drop 1) (out.drop 1) := .refl ..
    exact (put_writes hdrop).mono (Nat.zero_le _) (by omega)
  · rw [← hblank]
    refine slice_congr fun k _ => ?_
    rcases k with - | k
    · simp [Cells.put]
    · rw [Nat.zero_add, Nat.add_comm, cell_put]
      rfl

theorem symbolizeOpened_outcome (hsymbolize : host.symbolizeCallback = none) (hroom : 2 ≤ size) (hsize : size < 2 ^ 63)
    (hblank : out.slice 0 size = blank size) (hsought : Sought ⟨pc, out.drop 1, size - 1, host.openFile⟩ opened)
    (h : symbolizeOpened fuel host pc opened size (out.put 1 opened.outFileName) = some r) :
    Outcome fuel host pc size out (.ok opened) r := by
  unfold symbolizeOpened at h
  cases hfd : opened.fd with
  | none =>
    simp only [hfd] at h
    cases htried : opened.tried with
    | none =>
      have hkept : opened.outFileName = out.drop 1 := hsought.kept (Or.inr htried)
      obtain ⟨hput, hslice⟩ := put_drop hroom hblank
      rw [hkept, readOut_of_kept hroom hslice (Or.inl rfl)] at h
      cases h
      exact ⟨hput, opened, none, rfl, .unknown htried, rfl, nofun⟩
    | some name =>
      have hfails : host.openFile name = none := by
        have hopens := hsought.fd
        rwa [hfd, htried, Option.bind_some, eq_comm] at hopens
      obtain ⟨hput, hstring, hfirst⟩ :=
        hasString_tried hroom hblank (hsought.free name htried) (hsought.copied name htried hfd)
      rw [readOut, if_pos (by omega)] at h
      by_cases hnil : name.take (size - 2) = []
      · have hzero := hfirst.mpr hnil
        rw [hzero] at h
        cases h
        exact ⟨hput, opened, none, rfl, .unnamed htried hfails hnil, rfl, nofun⟩
      · have hnonzero := fun hzero => hnil (hfirst.mp hzero)
        obtain ⟨fault, hfault, -⟩ | ⟨c, hc, h⟩ := done_bind_cases h
        · cases hfault
        cases hc
        obtain ⟨out', happend, hplace, hshown⟩ := @appendOffset_eq _ _ _ host.digits hstring (pc - opened.baseAddress)
        rw [if_pos hnonzero, happend] at h
        cases h
        refine ⟨hput.trans hplace, opened, some _, rfl, .place htried hfails hnil, rfl, ?_⟩
        intro l hl
        cases hl
        have htake : '('.toUInt8 :: name.take (size - 2) = ('('.toUInt8 :: name).take (size - 1) := by
          rw [show size - 1 = (size - 2) + 1 by omega, List.take_succ_cons]
        rw [htake, take_append_take] at hshown
        exact hshown
  | some fd =>
    simp only [hfd] at h
    have hkept : opened.outFileName = out.drop 1 := hsought.kept (Or.inl (by rw [hfd]; rfl))
    obtain ⟨hput, hslice⟩ := put_drop hroom hblank
    rw [hkept] at h
    exact (symbolizeObject_outcome hsymbolize hroom hsize hfd hslice h).of_writes hput

/-- Without callbacks, what is shown of a pc is the name of its symbol or its place in an object file that cannot be opened,
and nothing but the buffer is written. No assertion of the function itself fails; the buffers are overrun only by the name
that the demangler leaves without a terminator. -/
theorem symbolizeAndDemangle_outcome (hsymbolize : host.symbolizeCallback = none)
    (hopen : host.openObjectFileCallback = none)
    (hroom : 2 ≤ size) (hsize : size < 2 ^ 63) (h : symbolizeAndDemangle fuel host pc size out = some r) :
    ∃ before found, openObjectFile fuel host pc before (size - 1) = some found ∧ Outcome fuel host pc size out found r := by
  obtain ⟨before, happend, hwrites, hblank⟩ := @appendString_parenthesis size out hroom
  rw [symbolizeAndDemangle, if_neg (by omega), happend] at h
  obtain ⟨fault, hfault, rfl⟩ | ⟨opened, hopened, h⟩ := of_bind_cases h
  · exact ⟨_, _, hfault, rfl⟩
  · have hsought := openObjectFile_sought hopen hopened
    exact ⟨_, _, hopened, (symbolizeOpened_outcome hsymbolize hroom hsize hblank hsought h).of_writes hwrites⟩

end

/-- The program of the second mapping can be opened, but not read. -/
def hostTwo : Host where
  maps := some (File.pread ⟨joined lineFeed (mappingsTwo.map Mapping.line), by decide⟩)
  mem := some ⟨fun _ _ _ => none, by simp⟩
  openFile _ := some 3
  object _ := ⟨fun _ _ _ => none, by simp⟩
  symbolizeCallback := none
  openObjectFileCallback := none
  buf _ := 0
  digits := ⟨1, by decide, by decide⟩
  demangled _ := 'x'

theorem symbolizeAndDemangle_outcome_two : ∃ r before found,
    symbolizeAndDemangle 3 hostTwo 0x2fff 16 ⟨fun _ => 0, []⟩ = some r ∧
      openObjectFile 3 hostTwo 0x2fff before 15 = some found ∧
      Outcome 3 hostTwo 0x2fff 16 ⟨fun _ => 0, []⟩ found r := by
  have hreturns : Option.isSome (symbolizeAndDemangle 3 hostTwo 0x2fff 16 ⟨fun _ => 0, []⟩) = true := by decide +kernel
  obtain ⟨r, hr⟩ := Option.isSome_iff_exists.mp hreturns
  obtain ⟨before, found, hfound, houtcome⟩ := symbolizeAndDemangle_outcome rfl rfl (by decide) (by decide) hr
  exact ⟨r, before, found, hr, hfound, houtcome⟩

end Glog.Symbolize
