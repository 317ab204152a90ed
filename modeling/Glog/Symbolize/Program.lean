import Glog.Symbolize.Linear
import Glog.Symbolize.Outcome

/-! # The symbols of a program

Where the mappings are as the kernel prints them and the object files are not malformed, the function ends, and shows the
name of the first symbol that contains the pc in the regular symbol table, or else in the dynamic one. -/

namespace Glog.Symbolize
open Lines Memory Run

/-! ### An object file -/

namespace File

/-- The string at an offset, if it ends within so many bytes; the end of the file ends it too. -/
def stringAt (file : File) (offset size : Nat) : Option Bytes :=
  let piece := (file.content.drop offset).take size
  if piece = [] ∨ (piece.length = size ∧ 0 ∉ piece) then none else some (piece.takeWhile (· ≠ 0))

/-- The name in the first table of the type. -/
def tableName (file : File) (type pc baseAddress size : Nat) : Option Bytes := do
  let symtab ← file.headers.find? fun header => header.shType == type
  let symbol ← (symbols file symtab).find? (contains pc baseAddress)
  let strtab ← file.headers[symtab.shLink]?
  file.stringAt (strtab.shOffset + symbol.stName) size

def symbolName (file : File) (pc baseAddress size : Nat) : Option Bytes :=
  (file.tableName shtSymtab pc baseAddress size).or (file.tableName shtDynsym pc baseAddress size)

end File

structure ObjectFile (file : File) : Prop extends WholeTables file where
  magic : file.content.take 4 = elfMag

/-! ### The name is read -/

/-- A buffer into which nothing but the first byte has been put. -/
def Blank (size : Nat) (out : Bytes) : Prop := out = blank size ∨ out = List.replicate size 0

/-- The answer carries the name. -/
structure Carries (size : Nat) (answer : Found) (name : Option Bytes) : Prop where
  found : answer.found = name.isSome
  string : ∀ text ∈ name, 0 ∈ answer.out ∧ answer.out.takeWhile (· ≠ 0) = text
  blank : name = none → Blank size answer.out

section
variable {file : File} {pread : Pread} {size pc baseAddress type call : Nat} {out : Bytes} {strtab symtab : Shdr}
    {symbol : Sym}

theorem Blank.length_eq (h : Blank size out) (hroom : 2 ≤ size) : out.length = size := by
  rcases h with rfl | rfl
  · exact length_blank hroom
  · exact List.length_replicate

theorem Blank.drop_eq (h : Blank size out) {k : Nat} (hk : 0 < k) : out.drop k = List.replicate (size - k) 0 := by
  obtain ⟨k, rfl⟩ := Nat.exists_eq_add_of_lt hk
  rw [Nat.zero_add]
  rcases h with rfl | rfl
  · rw [Symbolize.blank, List.drop_succ_cons, List.drop_replicate, Nat.sub_sub, Nat.add_comm]
  · exact List.drop_replicate

theorem number_lt (n offset : Nat) (record : Bytes) : number n offset record < 256 ^ n := by
  have hfold : ∀ l : Bytes, l.foldr (fun b n => b.toNat + 256 * n) 0 < 256 ^ l.length := by
    intro l
    induction l with
    | nil => decide
    | cons b l ih =>
      have hb := b.toNat_lt
      rw [List.foldr_cons, List.length_cons, Nat.pow_succ]
      omega
  refine Nat.lt_of_lt_of_le (hfold _) (Nat.pow_le_pow_right (by decide) ?_)
  rw [List.length_take]
  exact Nat.min_le_left _ _

/-- What is read from an offset of the file, also where `pread` refuses it. -/
theorem getD_bytes {offset : Nat} : (file.bytes size offset).getD [] = (file.content.drop offset).take size := by
  have hsize := file.size_lt
  rw [File.bytes]
  split
  · rw [List.drop_of_length_le (by omega), List.take_nil]
    rfl
  · rfl

theorem readName_carries (hholds : Holds file pread) (hroom : 2 ≤ size) (hsize : size < 2 ^ 63) (hblank : Blank size out)
    (hoffset : strtab.shOffset + symbol.stName < 2 ^ 64) : ∃ answer, readName pread out strtab symbol call = .ok answer ∧
      Carries size answer (file.stringAt (strtab.shOffset + symbol.stName) size) := by
  have hlength := hblank.length_eq hroom
  have hread := @readFromOffset_ok pread size (strtab.shOffset + symbol.stName) call hsize
  have hbytes := @bytes_readLoop file pread size (strtab.shOffset + symbol.stName) call hholds (by omega) hoffset
  unfold readName
  rw [hlength, Nat.mod_eq_of_lt hoffset, hread]
  dsimp only [Bind.bind, Except.bind]
  rw [hbytes, getD_bytes]
  unfold File.stringAt
  generalize hpiece : (file.content.drop (strtab.shOffset + symbol.stName)).take size = piece
  have hle : piece.length ≤ size := hpiece ▸ List.length_take_le _ _
  dsimp only
  by_cases hnil : piece = []
  · rw [if_pos (Or.inl hnil), if_pos (Or.inl hnil)]
    exact ⟨_, rfl, rfl, nofun, fun _ => Or.inr rfl⟩
  · have hdrop := hblank.drop_eq (List.length_pos_iff.mpr hnil)
    rw [hdrop]
    by_cases hfree : 0 ∈ piece
    · rw [if_neg (fun h => h.elim hnil fun h => h (List.mem_append_left _ hfree)),
        if_neg (fun h => h.elim hnil fun h => h.2 hfree)]
      refine ⟨_, rfl, rfl, fun text htext => ?_, nofun⟩
      cases htext
      refine ⟨List.mem_append_left _ hfree, ?_⟩
      obtain ⟨l, l', hl, hl'⟩ := List.eq_append_cons_of_mem hfree
      rw [hl, List.append_assoc, List.cons_append, takeWhile_terminated, takeWhile_terminated]
    · by_cases hfull : piece.length = size
      · have hwritten : 0 ∉ piece ++ List.replicate (size - piece.length) 0 := by
          rw [hfull, Nat.sub_self, List.replicate_zero, List.append_nil]
          exact hfree
        rw [if_pos (Or.inr hwritten), if_pos (Or.inr ⟨hfull, hfree⟩)]
        exact ⟨_, rfl, rfl, nofun, fun _ => Or.inr rfl⟩
      · obtain ⟨n, hn⟩ := Nat.exists_eq_add_of_lt (Nat.lt_of_le_of_ne hle hfull)
        have hrest : List.replicate (size - piece.length) (0 : UInt8) = 0 :: List.replicate n 0 := by
          rw [hn, Nat.add_assoc, Nat.add_sub_cancel_left, List.replicate_succ]
        have hmem : 0 ∈ piece ++ List.replicate (size - piece.length) 0 := by
          rw [hrest]
          exact List.mem_append_right _ List.mem_cons_self
        rw [if_neg (fun h => h.elim hnil fun h => h hmem), if_neg (fun h => h.elim hnil fun h => hfull h.1)]
        refine ⟨_, rfl, rfl, fun text htext => ?_, nofun⟩
        cases htext
        refine ⟨hmem, ?_⟩
        rw [hrest, takeWhile_terminated]

/-! ### The symbol is found -/

theorem symbolName_of_carries {answer : Found} {name : Bytes} {found : Option Bytes} (h : Carries size answer found)
    (hfound : answer.found = true) (hname : answer.out.takeWhile (· ≠ 0) = name) : found = some name := by
  cases found with
  | none =>
    rw [h.found] at hfound
    cases hfound
  | some text => rw [← hname, (h.string text rfl).2]

theorem Carries.none_blank (hblank : Blank size out) : Carries size ⟨false, out, call⟩ none := ⟨rfl, nofun, fun _ => hblank⟩

theorem readFromOffsetExact_headers {k : Nat} (hholds : Holds file pread)
    (hsections : file.ehdr.eShoff + 64 * file.ehdr.eShnum ≤ file.content.length)
    (hk : file.headers[k]? = some strtab) : ∃ record call',
      readFromOffsetExact pread 64 ((file.ehdr.eShoff + k * 64) % 2 ^ 64) call = .ok ⟨some record, call'⟩ ∧
        shdr record = strtab := by
  have hsize := file.size_lt
  rw [File.headers, sectionHeaders, List.getElem?_map, Option.map_eq_some_iff] at hk
  obtain ⟨j, hj, rfl⟩ := hk
  obtain ⟨hlt, rfl⟩ := List.getElem?_eq_some_iff.mp hj
  rw [List.length_range] at hlt
  rw [List.getElem_range, Nat.mod_eq_of_lt (by omega), Nat.mul_comm k]
  obtain ⟨call', hread⟩ :=
    @readFromOffsetExact_inside file pread call 64 (file.ehdr.eShoff + 64 * k) hholds (by decide) (by omega)
  exact ⟨_, call', hread, rfl⟩

theorem select_carries {selected : Option Sym} (hholds : Holds file pread) (hroom : 2 ≤ size) (hsize : size < 2 ^ 63)
    (hblank : Blank size out) (hoffset : strtab.shOffset ≤ file.content.length)
    (hname : ∀ symbol ∈ selected, symbol.stName < 256 ^ 4) :
    ∃ answer, select pread out strtab selected call = .ok answer ∧
      Carries size answer (selected.bind fun symbol => file.stringAt (strtab.shOffset + symbol.stName) size) := by
  cases selected with
  | none => exact ⟨_, rfl, .none_blank hblank⟩
  | some symbol =>
    have hlt := hname symbol rfl
    have hbound := file.size_lt
    exact readName_carries hholds hroom hsize hblank (by omega)

/-- A symbol table is consulted. -/
theorem consult_carries (hholds : Holds file pread) (hobject : ObjectFile file) (hroom : 2 ≤ size) (hsize : size < 2 ^ 63)
    (hblank : Blank size out) (htype : type = shtSymtab ∨ type = shtDynsym) : ∃ answer,
      Gives (fun fuel => consult fuel pread pc baseAddress file.ehdr type out call) (.ok (answer, answer.found)) ∧
        Carries size answer (file.tableName type pc baseAddress size) := by
  obtain ⟨fuel, call₁, hheader⟩ := getSectionHeaderByType_eq hholds hobject.sections type call
  rw [consult_eq, File.tableName]
  cases hfind : file.headers.find? fun header => header.shType == type with
  | none =>
    refine ⟨⟨false, out, call₁⟩,
      (gives_bind_ok (steady_loop _ _) steady_consultSection).mpr ⟨_, ⟨fuel, hheader⟩, 0, ?_⟩, .none_blank hblank⟩
    change consultSection pread pc baseAddress file.ehdr out 0
      ⟨file.headers.find? fun header => header.shType == type, call₁⟩ = _
    rw [hfind]
    rfl
  | some symtab =>
    have hbeq := List.find?_some hfind
    have hsymtab : SymbolTable file symtab := by
      refine hobject.tables symtab (List.mem_of_find?_eq_some hfind) ?_
      rwa [beq_iff_eq.mp hbeq]
    obtain ⟨strtab, hstrtab, hoffset⟩ := hsymtab.strings
    obtain ⟨record, call₂, hread, rfl⟩ :=
      @readFromOffsetExact_headers file pread call₁ strtab symtab.shLink hholds hobject.sections hstrtab
    obtain ⟨fuel', call₃, hsymbol⟩ :=
      findSymbol_eq hholds hsymtab.entsize hsymtab.count hsymtab.inside pc out baseAddress (shdr record) call₂
    obtain ⟨answer, hselect, hcarries⟩ := @select_carries file pread size call₃ out (shdr record)
      ((symbols file symtab).find? (contains pc baseAddress)) hholds hroom hsize hblank hoffset fun symbol hsymbol => by
        obtain ⟨k, -, rfl⟩ := List.mem_map.mp (List.mem_of_find?_eq_some hsymbol)
        exact number_lt 4 0 _
    refine ⟨answer, (gives_bind_ok (steady_loop _ _) steady_consultSection).mpr ⟨⟨some symtab, call₁⟩, ⟨fuel, ?_⟩, ?_⟩, ?_⟩
    · rw [← hfind]
      exact hheader
    · simp only [consultSection_some hread]
      exact (gives_bind_pure_ok steady_findSymbol _).mpr ⟨answer, ⟨fuel', hsymbol.trans (congrArg some hselect)⟩, rfl⟩
    · simpa [hstrtab] using hcarries

theorem fileGetElfType_object (hholds : Holds file pread) (hobject : ObjectFile file) :
    ∃ elfType call', fileGetElfType pread call = .ok (some elfType, call') := by
  obtain ⟨call', hread⟩ := @readHeader file pread call hholds hobject.header
  have hmagic : eIdentMagic (file.content.take 64) = elfMag := by
    rw [eIdentMagic, List.take_take]
    exact hobject.magic
  refine ⟨eType (file.content.take 64), call', ?_⟩
  rw [fileGetElfType, hread]
  dsimp only [Bind.bind, Except.bind]
  rw [if_neg (fun h => h hmagic)]
  rfl

/-- The regular table is consulted first, and the dynamic one if it does not settle the search. -/
theorem getSymbolFromObjectFile_carries (hholds : Holds file pread) (hobject : ObjectFile file) (hroom : 2 ≤ size)
    (hsize : size < 2 ^ 63) (hblank : Blank size out) : ∃ answer,
      Gives (fun fuel => getSymbolFromObjectFile fuel pread pc out baseAddress call) (.ok answer) ∧
        Carries size answer (file.symbolName pc baseAddress size) := by
  obtain ⟨call₁, hread⟩ := @readHeader file pread call hholds hobject.header
  obtain ⟨regular, hgives, hregular⟩ :=
    @consult_carries file pread size pc baseAddress shtSymtab call₁ out hholds hobject hroom
    hsize hblank (Or.inl rfl)
  simp only [getSymbolFromObjectFile_some hread]
  rw [File.symbolName]
  cases hname : file.tableName shtSymtab pc baseAddress size with
  | some name =>
    rw [hname] at hregular
    have hfound : regular.found = true := hregular.found
    refine ⟨regular, (gives_bind_ok steady_consult steady_consultDynamic).mpr ⟨_, hgives, 0, ?_⟩, hregular⟩
    rw [hfound]
    rfl
  | none =>
    rw [hname] at hregular
    have hfound : regular.found = false := hregular.found
    obtain ⟨dynamic, hgives', hdynamic⟩ :=
      @consult_carries file pread size pc baseAddress shtDynsym regular.call regular.out hholds hobject
      hroom hsize (hregular.blank rfl) (Or.inr rfl)
    refine ⟨dynamic, (gives_bind_ok steady_consult steady_consultDynamic).mpr ⟨_, hgives, ?_⟩, hdynamic⟩
    rw [hfound]
    exact (gives_bind_pure_ok steady_consult Prod.fst).mpr ⟨_, hgives', rfl⟩

theorem steady_getSymbolFromObjectFile (pread : Pread) (pc : Nat) (out : Bytes) (baseAddress call : Nat) :
    Steady fun fuel => getSymbolFromObjectFile fuel pread pc out baseAddress call := by
  obtain ⟨⟨bytes, call₁⟩, hread⟩ := readFromOffsetExact_ok (show 64 < 2 ^ 63 by decide) pread 0 call
  cases bytes with
  | none =>
    simp only [getSymbolFromObjectFile_none hread]
    exact steady_const _
  | some record =>
    simp only [getSymbolFromObjectFile_some hread]
    exact steady_consult.bind steady_consultDynamic

end

/-! ### A process -/

section
variable {ε α β : Type} {f : ε → SymbolizeFault} {k : α → SymbolizeM β}

theorem of_bind_returns {x : Option (Except ε α)} (hx : ∃ r, x = some r) (hk : ∀ a, x = some (.ok a) → ∃ r, k a = some r) :
    ∃ r, (SymbolizeM.of f x >>= k) = some r := by
  obtain ⟨e | a, rfl⟩ := hx
  · exact ⟨_, rfl⟩
  · exact hk a rfl

theorem done_bind_returns {x : Except SymbolizeFault α} (hk : ∀ a, x = .ok a → ∃ r, k a = some r) :
    ∃ r, (SymbolizeM.done x >>= k) = some r := by
  rcases x with e | a
  · exact ⟨_, rfl⟩
  · exact hk a rfl

end

/-- The mappings of a process, what is in its memory, and its object files by their descriptors. -/
structure Process where
  mappings : List Mapping
  image : Image
  object : Nat → File

/-- The base address that the headers in the memory tell, up to the mapping of the pc. -/
def Process.baseAddress (process : Process) (pc : UInt64) : UInt64 := baseOf process.image pc process.mappings 0

/-- The host is the one of a process. -/
structure Hosts (process : Process) (host : Host) : Prop where
  symbolizeCallback : host.symbolizeCallback = none
  openObjectFileCallback : host.openObjectFileCallback = none
  maps : ∃ file maps, host.maps = some maps ∧ Holds file maps ∧
    file.content = joined lineFeed (process.mappings.map Mapping.line)
  mem : ∃ mem, host.mem = some mem ∧ process.image.Shown mem
  fits : ∀ m ∈ process.mappings, m.line.length < 1024
  object : ∀ path fd, host.openFile path = some fd → Holds (process.object fd) (host.object fd) ∧
    ObjectFile (process.object fd)

/-- What is shown of a pc that a mapping contains. -/
inductive Tells (process : Process) (host : Host) (pc : UInt64) (size : Nat) : Option Mapping → Option Bytes → Prop
  | unmapped : Tells process host pc size none none
  | anonymous {m : Mapping} : m.path = none → Tells process host pc size (some m) none
  | short {m : Mapping} {path : MapsPath} : m.path = some path → host.openFile path.text = none → size = 2 →
      Tells process host pc size (some m) none
  | place {m : Mapping} {path : MapsPath} : m.path = some path → host.openFile path.text = none → 2 < size →
      Tells process host pc size (some m)
        (some (('('.toUInt8 :: path.text ++ placeText (pc - process.baseAddress pc)).take (size - 1)))
  | stripped {m : Mapping} {path : MapsPath} {fd : Nat} : m.path = some path → host.openFile path.text = some fd →
      (process.object fd).symbolName pc.toNat (process.baseAddress pc).toNat size = none →
        Tells process host pc size (some m) none
  | symbol {m : Mapping} {path : MapsPath} {fd : Nat} {name text : Bytes} (h : 0 ∉ name) : m.path = some path →
      host.openFile path.text = some fd →
        (process.object fd).symbolName pc.toNat (process.baseAddress pc).toNat size = some name →
      ShownAs host.demangled size name h text → Tells process host pc size (some m) (some text)

section
variable {process : Process} {host : Host} {pc : UInt64} {size fuel : Nat} {out : Cells UInt8} {opened : Opened}

theorem symbolizeOpened_returns (hcallback : host.symbolizeCallback = none)
    (hslice : opened.fd.isSome → out.slice 0 size = blank size)
    (hobject : ∀ fd elfType call, opened.fd = some fd → fileGetElfType (host.object fd) 0 = .ok (some elfType, call) → ∃ r,
      getSymbolFromObjectFile fuel (host.object fd) pc.toNat (blank size) opened.baseAddress.toNat call = some r) :
    ∃ r, symbolizeOpened fuel host pc opened size out = some r := by
  unfold symbolizeOpened
  cases hfd : opened.fd with
  | none =>
    refine done_bind_returns fun c _ => ?_
    split
    · exact done_bind_returns fun out _ => ⟨_, rfl⟩
    · exact ⟨_, rfl⟩
  | some fd =>
    unfold symbolizeObject
    refine of_bind_returns ⟨_, rfl⟩ fun answer htype => ?_
    obtain ⟨elfType, call⟩ := answer
    cases elfType with
    | none => exact ⟨_, rfl⟩
    | some elfType =>
      have hback : ∀ relocation, callBack host fd pc relocation size out = (0, out) :=
        fun relocation => by rw [callBack, hcallback]
      have hblank := hslice (by rw [hfd]; rfl)
      simp only [hback, Nat.sub_zero, hblank]
      refine of_bind_returns (hobject fd elfType call hfd (Option.some.inj htype)) fun found _ => ?_
      split
      · exact done_bind_returns fun symbol _ => ⟨_, rfl⟩
      · refine done_bind_returns fun c _ => ?_
        split
        · exact done_bind_returns fun out _ => ⟨_, rfl⟩
        · exact ⟨_, rfl⟩

/-- What is told of a pc in a process. -/
def Told (process : Process) (host : Host) (pc : UInt64) (size : Nat) (out : Cells UInt8) :
    Except SymbolizeFault (Bool × Cells UInt8) → Prop
  | .ok (shown, out') => Writes 0 size out out' ∧ ∃ text,
      Tells process host pc size (process.mappings.find? (Mapping.covers pc)) text ∧ shown = text.isSome ∧
      ∀ l ∈ text, HasString 0 size out' l
  | .error fault => fault = .outOfBounds ∧ ∃ m path fd name h, process.mappings.find? (Mapping.covers pc) = some m ∧
      m.path = some path ∧ host.openFile path.text = some fd ∧
      (process.object fd).symbolName pc.toNat (process.baseAddress pc).toNat size = some name ∧
        Unterminated host.demangled name h

/-- The answer of an object file of the process. -/
theorem carries_of_answers (hhosts : Hosts process host) (hroom : 2 ≤ size) (hsize : size < 2 ^ 63)
    {path : Bytes} {fd : Nat}
    {baseAddress : UInt64} {answer : Except Fault Found} (hopen : host.openFile path = some fd)
    (h : Answers fuel host pc size fd baseAddress answer) : ∃ found, answer = .ok found ∧
      Carries size found ((process.object fd).symbolName pc.toNat baseAddress.toNat size) := by
  obtain ⟨elfType, call, -, hanswer⟩ := h
  obtain ⟨hholds, hobject⟩ := hhosts.object path fd hopen
  obtain ⟨found, ⟨fuel', hgives⟩, hcarries⟩ :=
    @getSymbolFromObjectFile_carries _ _ size pc.toNat baseAddress.toNat call (blank size)
    hholds hobject hroom hsize (Or.inl rfl)
  exact ⟨found, (steady_getSymbolFromObjectFile _ _ _ _ _).unique hanswer hgives, hcarries⟩

/-- The mapping and the path of an object file. -/
theorem exists_path {request : Request} {found : Option Mapping} {path : Bytes} (hfinds : Finds request found opened)
    (htried : opened.tried = some path) : ∃ m text, found = some m ∧ m.path = some text ∧ text.text = path := by
  have hpath := hfinds.tried
  rw [htried, eq_comm, Option.bind_eq_some_iff] at hpath
  obtain ⟨m, hm, hpath⟩ := hpath
  obtain ⟨text, htext, heq⟩ := Option.map_eq_some_iff.mp hpath
  exact ⟨m, text, hm, htext, heq⟩

theorem exists_open {request : Request} {found : Option Mapping} {fd : Nat} (hfinds : Finds request found opened)
    (hfd : opened.fd = some fd) : ∃ m text, found = some m ∧ m.path = some text ∧ request.openFile text.text = some fd := by
  have hopen := hfinds.fd
  rw [hfd, eq_comm, Option.bind_eq_some_iff] at hopen
  obtain ⟨path, htried, hopen⟩ := hopen
  obtain ⟨m, text, hm, htext, rfl⟩ := exists_path hfinds htried
  exact ⟨m, text, hm, htext, hopen⟩

theorem tells_of_shows {text : Option Bytes} (hhosts : Hosts process host) (hroom : 2 ≤ size) (hsize : size < 2 ^ 63)
    {before : Cells UInt8} {found : Option Mapping} (hfinds : Finds ⟨pc, before, size - 1, host.openFile⟩ found opened)
    (hbase : opened.baseAddress = process.baseAddress pc) (h : Shows fuel host pc size opened text) :
    Tells process host pc size found text := by
  cases h with
  | unknown htried =>
    have hpath := hfinds.tried
    rw [htried] at hpath
    cases found with
    | none => exact .unmapped
    | some m => exact .anonymous (Option.map_eq_none_iff.mp hpath.symm)
  | unnamed htried hfails hnil =>
    obtain ⟨m, path, rfl, hpath, rfl⟩ := exists_path hfinds htried
    obtain ⟨ch, rest, hfirst, -⟩ := path.first
    rcases List.take_eq_nil_iff.mp hnil with hzero | hempty
    · exact .short hpath hfails (by omega)
    · rw [hfirst] at hempty
      cases hempty
  | place htried hfails hne =>
    obtain ⟨m, path, rfl, hpath, rfl⟩ := exists_path hfinds htried
    rw [hbase]
    refine .place hpath hfails (Nat.lt_of_not_le fun hle => hne ?_)
    rw [Nat.sub_eq_zero_of_le hle, List.take_zero]
  | foreign hfd htype =>
    obtain ⟨m, path, rfl, hpath, hopen⟩ := exists_open hfinds hfd
    obtain ⟨hholds, hobject⟩ := hhosts.object path.text _ hopen
    obtain ⟨elfType, call, hok⟩ := @fileGetElfType_object _ _ 0 hholds hobject
    rw [hok] at htype
    cases htype
  | stripped hfd hanswers hunfound =>
    obtain ⟨m, path, rfl, hpath, hopen⟩ := exists_open hfinds hfd
    obtain ⟨answer, heq, hcarries⟩ := carries_of_answers hhosts hroom hsize hopen hanswers
    cases heq
    have hname := hcarries.found
    rw [hunfound, eq_comm, Option.isSome_eq_false_iff, Option.isNone_iff_eq_none] at hname
    exact .stripped hpath hopen (hbase ▸ hname)
  | symbol hfree hfd hanswers hfound _ _ hname hshown =>
    obtain ⟨m, path, rfl, hpath, hopen⟩ := exists_open hfinds hfd
    obtain ⟨answer, heq, hcarries⟩ := carries_of_answers hhosts hroom hsize hopen hanswers
    cases heq
    exact .symbol hfree hpath hopen (hbase ▸ symbolName_of_carries hcarries hfound hname) hshown

theorem told_of_outcome {r : Except SymbolizeFault (Bool × Cells UInt8)} (hhosts : Hosts process host) (hroom : 2 ≤ size)
    (hsize : size < 2 ^ 63) {before : Cells UInt8}
    (hfinds : Finds ⟨pc, before, size - 1, host.openFile⟩ (process.mappings.find? (Mapping.covers pc)) opened)
    (hbase : opened.baseAddress = process.baseAddress pc) (h : Outcome fuel host pc size out (.ok opened) r) :
    Told process host pc size out r := by
  cases r with
  | ok answer =>
    obtain ⟨hwrites, found, text, heq, hshows, hshown, hstring⟩ := h
    cases heq
    exact ⟨hwrites, text, tells_of_shows hhosts hroom hsize hfinds hbase hshows, hshown, hstring⟩
  | error fault =>
    cases fault with
    | maps fault => cases h
    | object fault =>
      obtain ⟨found, fd, heq, hfd, hanswers⟩ := h
      cases heq
      obtain ⟨m, path, -, -, hopen⟩ := exists_open hfinds hfd
      obtain ⟨answer, herror, -⟩ := carries_of_answers hhosts hroom hsize hopen hanswers
      cases herror
    | outOfBounds =>
      obtain ⟨found, fd, answer, name, hfree, heq, hfd, hanswers, hfound, hname, hunterminated⟩ := h
      cases heq
      obtain ⟨m, path, hm, hpath, hopen⟩ := exists_open hfinds hfd
      obtain ⟨_, hok, hcarries⟩ := carries_of_answers hhosts hroom hsize hopen hanswers
      cases hok
      exact ⟨rfl, m, path, fd, name, hfree, hm, hpath, hopen, hbase ▸ symbolName_of_carries hcarries hfound hname,
        hunterminated⟩
    | append fault => cases h
    | safeAssert => cases h

/-- There is fuel for the symbol tables, too. -/
theorem exists_fuel (hhosts : Hosts process host) (hroom : 2 ≤ size) (hsize : size < 2 ^ 63) {before : Cells UInt8}
    {found : Option Mapping} (hfinds : Finds ⟨pc, before, size - 1, host.openFile⟩ found opened) (fuel : Nat) :
    ∃ fuel', fuel ≤ fuel' ∧ ∀ fd elfType call, opened.fd = some fd →
      fileGetElfType (host.object fd) 0 = .ok (some elfType, call) → ∃ r,
      getSymbolFromObjectFile fuel' (host.object fd) pc.toNat (blank size) opened.baseAddress.toNat call = some r := by
  cases hfd : opened.fd with
  | none => exact ⟨fuel, Nat.le_refl _, nofun⟩
  | some fd =>
    obtain ⟨m, path, -, -, hopen⟩ := exists_open hfinds hfd
    obtain ⟨hholds, hobject⟩ := hhosts.object path.text fd hopen
    obtain ⟨elfType, call, htype⟩ := @fileGetElfType_object _ _ 0 hholds hobject
    obtain ⟨answer, ⟨fuel', hgives⟩, -⟩ :=
      @getSymbolFromObjectFile_carries _ _ size pc.toNat opened.baseAddress.toNat call (blank size)
      hholds hobject hroom hsize (Or.inl rfl)
    refine ⟨max fuel fuel', Nat.le_max_left _ _, ?_⟩
    intro fd' elfType' call' hfd' htype'
    cases hfd'
    rw [htype] at htype'
    cases htype'
    exact ⟨_, steady_getSymbolFromObjectFile _ _ _ _ _ _ _ _ (Nat.le_max_right _ _) hgives⟩

/-- The function ends, and tells of every pc what the mappings and the symbol tables say. -/
theorem symbolizeAndDemangle_told (hhosts : Hosts process host) (pc : UInt64) (hroom : 2 ≤ size) (hsize : size < 2 ^ 63)
    (out : Cells UInt8) : ∃ fuel r, symbolizeAndDemangle fuel host pc size out = some r ∧
      Told process host pc size out r := by
  obtain ⟨before, happend, hwrites, hblank⟩ := @appendString_parenthesis size out hroom
  obtain ⟨file, maps, hmaps, hholds, hcontent⟩ := hhosts.maps
  obtain ⟨mem, hmem, hshown⟩ := hhosts.mem
  have hat : At file mapsBuffer (.create host.buf 0 0) (file.content.drop 0) := .first rfl (Nat.two_pow_pos 63)
  rw [List.drop_zero, hcontent] at hat
  obtain ⟨fuel, opened, hloop, hfinds, hbase⟩ := @loop_mappings file maps mem ⟨pc, before.drop 1, size - 1, host.openFile⟩
    ⟨.create host.buf 0 0, 0, 0, 0⟩ hholds process.mappings hat
      (fun range hrange => absurd hrange List.not_mem_nil) hhosts.fits
  have hopened : ∀ fuel', fuel ≤ fuel' → openObjectFile fuel' host pc (before.drop 1) (size - 1) = some (.ok opened) := by
    intro fuel' hle
    rw [openObjectFile, hhosts.openObjectFileCallback]
    dsimp only
    rw [hmaps, hmem]
    exact steady_loop _ _ _ _ _ hle hloop
  have hsought := openObjectFile_sought hhosts.openObjectFileCallback (hopened fuel (Nat.le_refl _))
  have hkept : opened.fd.isSome → (before.put 1 opened.outFileName).slice 0 size = blank size := fun hsome => by
    rw [hsought.kept (Or.inl hsome)]
    exact (put_drop hroom hblank).2
  obtain ⟨fuel', hle, hobject⟩ := exists_fuel hhosts hroom hsize hfinds fuel
  obtain ⟨r, hr⟩ := symbolizeOpened_returns hhosts.symbolizeCallback hkept hobject
  refine ⟨fuel', r, ?_, ?_⟩
  · rw [symbolizeAndDemangle, if_neg (by omega), happend]
    change SymbolizeM.of .maps (openObjectFile fuel' host pc (before.drop 1) (size - 1)) >>= _ = _
    rw [hopened fuel' hle]
    exact hr
  · have houtcome := symbolizeOpened_outcome hhosts.symbolizeCallback hroom hsize hblank hsought hr
    exact told_of_outcome hhosts hroom hsize hfinds (hbase process.image hshown) (houtcome.of_writes hwrites)

end

/-- A program with one function, for any address: its only segment is for 0x1000. -/
def program : File where
  content :=
    elfMag ++ List.replicate 12 0 ++ 3 :: List.replicate 15 0 ++ 224 :: List.replicate 7 0 ++ 64 :: List.replicate 15 0 ++
      1 :: List.replicate 3 0 ++ 2 :: List.replicate 3 0 ++
      -- the header of the symbol table, and that of the strings
      List.replicate 4 0 ++ 2 :: List.replicate 19 0 ++ 192 :: List.replicate 7 0 ++ 24 :: List.replicate 7 0 ++
        1 :: List.replicate 15 0 ++ 24 :: List.replicate 7 0 ++
      List.replicate 4 0 ++ 3 :: List.replicate 19 0 ++ 216 :: List.replicate 7 0 ++ 7 :: List.replicate 31 0 ++
      -- the symbol, at 0x1800
      [1, 0, 0, 0, 0, 0, 1, 0, 0, 24, 0, 0, 0, 0, 0, 0, 0, 8, 0, 0, 0, 0, 0, 0] ++
      0 :: bytes "_Z1fv".toList ++ [0, 0] ++
      -- the program header
      1 :: List.replicate 16 0 ++ 16 :: List.replicate 38 0
  size_lt := by decide +kernel

theorem headers_program : program.headers = [⟨2, 192, 24, 1, 24⟩, ⟨3, 216, 7, 0, 0⟩] := by decide +kernel

example : program.symbolName 0x2fff 0x1000 16 = some (bytes "_Z1fv".toList) := by decide +kernel

theorem objectFile_program : ObjectFile program where
  header := by decide +kernel
  magic := by decide +kernel
  sections := by decide +kernel
  tables symtab hmem htype := by
    rw [headers_program] at hmem
    rcases List.mem_pair.mp hmem with rfl | rfl
    · refine ⟨rfl, by decide, by decide +kernel, ⟨3, 216, 7, 0, 0⟩, ?_, by decide +kernel⟩
      rw [headers_program]
      rfl
    · exact absurd htype (by decide)

/-- The program is mapped at 0x2000. -/
def imageTwo : Image where
  byte a := if 0x2000 ≤ a then program.content[a - 0x2000]? else none
  high a h := by
    rw [if_pos (by omega)]
    refine List.getElem?_eq_none (Nat.le_trans ?_ (Nat.sub_le_sub_right h _))
    decide +kernel

def processTwo : Process := ⟨mappingsTwo, imageTwo, fun _ => program⟩

example : processTwo.baseAddress 0x2fff = 0x1000 := by decide +kernel

/-- A machine on which the program can be read, in the file and in the memory. -/
def hostProgram : Host := { hostTwo with mem := some imageTwo.pread, object := fun _ => program.pread }

theorem hosts_two : Hosts processTwo hostProgram where
  symbolizeCallback := rfl
  openObjectFileCallback := rfl
  maps := ⟨_, _, rfl, holds_pread _, rfl⟩
  mem := ⟨_, rfl, imageTwo.shown_pread⟩
  fits := by decide +kernel
  object _ _ _ := ⟨holds_pread _, objectFile_program⟩

theorem symbolizeAndDemangle_told_two : ∃ fuel r,
    symbolizeAndDemangle fuel hostProgram 0x2fff 16 ⟨fun _ => 0, []⟩ = some r ∧
      Told processTwo hostProgram 0x2fff 16 ⟨fun _ => 0, []⟩ r :=
  symbolizeAndDemangle_told hosts_two 0x2fff (by decide) (by decide) ⟨fun _ => 0, []⟩

end Glog.Symbolize
