import Glog.Symbolize.Image
import Mathlib.Data.List.TakeWhile

/-! # The mappings of a process

What the kernel prints of a mapping is read back field by field, and the file of the first executable mapping that
contains the pc is the one that is opened. -/

namespace Glog.Symbolize
open Lines Memory Run

/-! ### A mapping -/

/-- The path at the end of a line. -/
structure MapsPath where
  text : Bytes
  first : ∃ ch rest, text = ch :: rest ∧ ch ≠ space
  plain : ∀ ch ∈ text, ch ≠ lineFeed ∧ ch ≠ 0

structure Mapping where
  start : UInt64
  stop : UInt64
  readable : Bool
  writable : Bool
  executable : Bool
  shared : Bool
  offset : UInt64
  major : Nat
  minor : Nat
  inode : Nat
  /-- How many spaces there are behind the inode, beside the one that comes before a path. -/
  padding : Nat
  path : Option MapsPath

namespace Mapping

def flags (m : Mapping) : Bytes :=
  [(if m.readable then 'r' else '-').toUInt8, (if m.writable then 'w' else '-').toUInt8,
    (if m.executable then 'x' else '-').toUInt8, (if m.shared then 's' else 'p').toUInt8]

/-- From behind the inode on. -/
def trailer (m : Mapping) : Bytes :=
  match m.path with
  | none => List.replicate m.padding space
  | some path => List.replicate (m.padding + 1) space ++ path.text

def device (m : Mapping) : Bytes := ascii (padded 16 m.major 2) ++ ':'.toUInt8 :: ascii (padded 16 m.minor 2)

/-- From the flags on. -/
def tail (m : Mapping) : Bytes :=
  space ::
    (ascii (padded 16 m.offset.toNat 8) ++ space :: (m.device ++ space :: (ascii (Nat.toDigits 10 m.inode) ++ m.trailer)))

/-- The line of `/proc/self/maps`. -/
def line (m : Mapping) : Bytes :=
  ascii (padded 16 m.start.toNat 8) ++ '-'.toUInt8 :: (ascii (padded 16 m.stop.toNat 8) ++ space :: (m.flags ++ m.tail))

/-- The pc is in the mapping, and the mapping may be read and executed. -/
def covers (pc : UInt64) (m : Mapping) : Bool := decide (m.start ≤ pc ∧ pc < m.stop) && (m.readable && m.executable)

def pathText (m : Mapping) : Option Bytes := m.path.map MapsPath.text

/-- What the mapping tells of the base address. -/
def base (image : Image) (m : Mapping) : Option UInt64 := if m.readable then image.baseAddress m.start else none

end Mapping

/-- The mappings up to the first one that is sought, and the base address by the last one of these that tells of it. -/
def passed (pc : UInt64) (mappings : List Mapping) : List Mapping :=
  mappings.take (mappings.findIdx (Mapping.covers pc) + 1)

def baseOf (image : Image) (pc : UInt64) (mappings : List Mapping) (baseAddress : UInt64) : UInt64 :=
  ((passed pc mappings).reverse.findSome? (Mapping.base image)).getD baseAddress

section
variable {m : Mapping} {ch : UInt8} {word rest : Bytes} {base number padding numSpaces k : Nat}

/-! ### Digits -/

theorem isHex_of_mem_padded (hbase : 2 ≤ base) (hbase' : base ≤ 16) (h : ch ∈ ascii (padded base number padding)) :
    isHex ch = true := by
  obtain ⟨c, hc, rfl⟩ := List.mem_map.mp h
  rcases List.mem_append.mp hc with hc | hc
  · obtain ⟨-, rfl⟩ := List.mem_replicate.mp hc
    exact isHex_digitChar (d := 0) (by decide)
  · obtain ⟨d, hd, rfl⟩ := Signalhandler.mem_toDigits hbase hc
    exact isHex_digitChar (by omega)

theorem ne_of_isHex {c : UInt8} (h : isHex ch = true) (hc : isHex c = false) : ch ≠ c := by
  rintro rfl
  rw [h] at hc
  cases hc

/-- What separates the lines, and the fields of a line, is not in the fields. -/
theorem mem_device (h : ch ∈ m.device) : ch ≠ space ∧ ch ≠ lineFeed := by
  have hdigit : ∀ {number : Nat}, ch ∈ ascii (padded 16 number 2) → ch ≠ space ∧ ch ≠ lineFeed := fun hmem =>
    have hhex := isHex_of_mem_padded (by decide) (by decide) hmem
    ⟨ne_of_isHex hhex (by decide), ne_of_isHex hhex (by decide)⟩
  rcases List.mem_append.mp h with h | h
  · exact hdigit h
  · rcases List.mem_cons.mp h with rfl | h
    · decide
    · exact hdigit h

theorem mem_flags (h : ch ∈ m.flags) : ch ≠ space ∧ ch ≠ lineFeed := by
  have hall : ∀ r w x s : Bool, ∀ ch ∈ [(if r then 'r' else '-').toUInt8, (if w then 'w' else '-').toUInt8,
      (if x then 'x' else '-').toUInt8, (if s then 's' else 'p').toUInt8], ch ≠ space ∧ ch ≠ lineFeed := by decide
  exact hall m.readable m.writable m.executable m.shared ch h

theorem lineFeed_notMem_trailer : lineFeed ∉ m.trailer := by
  intro h
  have hspace : ∀ {k : Nat}, lineFeed ∉ List.replicate k space := fun hmem =>
    absurd (List.mem_replicate.mp hmem).2 (by decide)
  rw [Mapping.trailer] at h
  split at h
  · exact hspace h
  · rename_i path _
    rcases List.mem_append.mp h with h | h
    · exact hspace h
    · exact (path.plain lineFeed h).1 rfl

theorem lineFeed_notMem_line : lineFeed ∉ m.line := by
  have hdigits : ∀ {base number padding : Nat}, 2 ≤ base → base ≤ 16 → lineFeed ∉ ascii (padded base number padding) :=
    fun hbase hbase' hmem => ne_of_isHex (isHex_of_mem_padded hbase hbase' hmem) (by decide) rfl
  have hinode : lineFeed ∉ ascii (Nat.toDigits 10 m.inode) := by
    rw [← padded_zero]
    exact hdigits (by decide) (by decide)
  have hflags : lineFeed ∉ m.flags := fun hmem => (mem_flags hmem).2 rfl
  have hdevice : lineFeed ∉ m.device := fun hmem => (mem_device hmem).2 rfl
  have hdash : lineFeed ≠ '-'.toUInt8 := by decide
  have hspace : lineFeed ≠ space := by decide
  simp only [Mapping.line, Mapping.tail, List.mem_append, List.mem_cons, not_or]
  exact ⟨hdigits (by decide) (by decide), hdash, hdigits (by decide) (by decide), hspace, hflags, hspace,
    hdigits (by decide) (by decide), hspace, hdevice, hspace, hinode, lineFeed_notMem_trailer⟩

/-! ### The flags -/

theorem expect_self (c : Char) (rest : Bytes) : expect c (c.toUInt8 :: rest) = some rest := if_pos rfl

theorem expect_space (rest : Bytes) : expect ' ' (space :: rest) = some rest := expect_self ' ' rest

theorem dropWhile_flags : (m.flags ++ m.tail).dropWhile (· ≠ space) = m.tail := by
  have hflags : ∀ ch ∈ m.flags, decide (ch ≠ space) = true := fun ch hmem => decide_eq_true (mem_flags hmem).1
  rw [List.dropWhile_append_of_pos hflags, Mapping.tail, List.dropWhile_cons_of_neg (by decide)]

theorem parseRange_line : parseRange m.line = (m.start, some ⟨m.stop, m.flags ++ m.tail, m.tail⟩) := by
  have hstart :=
    getHex_padded m.start 8 (p := '-'.toUInt8 :: (ascii (padded 16 m.stop.toNat 8) ++ space :: (m.flags ++ m.tail)))
    (fun ch hch => by cases hch; decide)
  have hstop := getHex_padded m.stop 8 (p := space :: (m.flags ++ m.tail)) (fun ch hch => by cases hch; decide)
  have hlength : (m.flags ++ m.tail).length - m.tail.length = 4 := by
    rw [List.length_append, Nat.add_sub_cancel]
    rfl
  have hnil : m.tail ≠ [] := List.cons_ne_nil _ _
  rw [Mapping.line, parseRange, hstart]
  dsimp only
  rw [expect_self]
  dsimp only [Bind.bind, Option.bind]
  rw [hstop]
  dsimp only
  rw [expect_space]
  dsimp only [Option.bind]
  rw [dropWhile_flags, hlength, if_neg]
  rintro (h | h)
  · exact hnil h
  · omega

theorem head?_flags : (m.flags ++ m.tail)[0]? = some 'r'.toUInt8 ↔ m.readable = true := by
  have hall : ∀ r : Bool, some (if r then 'r' else '-').toUInt8 = some 'r'.toUInt8 ↔ r = true := by decide
  exact hall m.readable

theorem third_flags : (m.flags ++ m.tail)[2]? = some 'x'.toUInt8 ↔ m.executable = true := by
  have hall : ∀ x : Bool, some (if x then 'x' else '-').toUInt8 = some 'x'.toUInt8 ↔ x = true := by decide
  exact hall m.executable

/-! ### The path -/

theorem skipToFileName_word (hword : ∀ ch ∈ word, ch ≠ space) (hlt : numSpaces < 2) :
    skipToFileName numSpaces (word ++ rest) = skipToFileName numSpaces rest := by
  induction word with
  | nil => rfl
  | cons ch word ih =>
    obtain ⟨hch, hword⟩ := List.forall_mem_cons.mp hword
    rw [List.cons_append, skipToFileName, if_neg hch, if_neg (Nat.not_le.mpr hlt)]
    exact ih hword

theorem skipToFileName_spaces :
    skipToFileName numSpaces (List.replicate k space ++ rest) = skipToFileName (numSpaces + k) rest := by
  induction k generalizing numSpaces with
  | zero => rfl
  | succ k ih =>
    rw [List.replicate_succ, List.cons_append, skipToFileName, if_pos rfl, ih]
    congr 1
    omega

theorem skipToFileName_stop (hch : ch ≠ space) (hle : 2 ≤ numSpaces) :
    skipToFileName numSpaces (ch :: rest) = ch :: rest := by
  rw [skipToFileName, if_neg hch, if_pos hle]

theorem skipToFileName_trailer : skipToFileName 1 m.trailer = m.pathText.getD [] := by
  rw [Mapping.trailer, Mapping.pathText]
  cases m.path with
  | none =>
    have hspaces := @skipToFileName_spaces [] 1 m.padding
    rw [List.append_nil] at hspaces
    exact hspaces
  | some path =>
    obtain ⟨ch, rest, htext, hch⟩ := path.first
    dsimp only
    rw [skipToFileName_spaces, htext, skipToFileName_stop hch (by omega)]
    exact htext.symm

/-- The file name of a line is the path of the mapping. -/
theorem fileName_tail : fileName m.tail = m.pathText := by
  have hoffset := getHex_padded m.offset 8
    (p := space :: (m.device ++ space :: (ascii (Nat.toDigits 10 m.inode) ++ m.trailer)))
      (fun ch hch => by cases hch; decide)
  have hinode : ∀ ch ∈ ascii (Nat.toDigits 10 m.inode), ch ≠ space := by
    intro ch hmem
    rw [← padded_zero] at hmem
    exact ne_of_isHex (isHex_of_mem_padded (by decide) (by decide) hmem) (by decide)
  have hskip : skipToFileName 0 (m.device ++ space :: (ascii (Nat.toDigits 10 m.inode) ++ m.trailer)) =
      m.pathText.getD [] := by
    rw [skipToFileName_word (fun ch hmem => (mem_device hmem).1) (by decide), skipToFileName, if_pos rfl,
      skipToFileName_word hinode (by decide), skipToFileName_trailer]
  rw [fileName, Mapping.tail, List.drop_one, List.tail_cons, hoffset]
  dsimp only
  rw [expect_space]
  dsimp only [Bind.bind, Option.bind]
  rw [hskip]
  cases hpath : m.path with
  | none => rw [Mapping.pathText, hpath]; rfl
  | some path =>
    obtain ⟨ch, rest, htext, -⟩ := path.first
    rw [Mapping.pathText, hpath, Option.map_some, Option.getD_some, if_neg (htext ▸ List.cons_ne_nil ch rest)]

theorem takeWhile_text (path : MapsPath) : path.text.takeWhile (· ≠ 0) = path.text :=
  List.takeWhile_eq_self_iff.mpr fun ch hmem => decide_eq_true (path.plain ch hmem).2

end

/-! ### The first mapping that contains the pc -/

/-- The path of the mapping is tried to open, if there are a mapping and a path, and nothing otherwise. -/
structure Finds (request : Request) (found : Option Mapping) (opened : Opened) : Prop where
  tried : opened.tried = found.bind Mapping.pathText
  fd : opened.fd = opened.tried.bind request.openFile
  start : ∀ m ∈ found, opened.startAddress = m.start

section
variable {file : File} {maps mem : Pread} {request : Request} {s : MapsState} {m : Mapping}
    {reader : LineReader} {bol : Nat}

theorem baseOf_cons_of_covers (image : Image) (hcovers : m.covers request.pc = true) (mappings : List Mapping)
    (baseAddress : UInt64) : baseOf image request.pc (m :: mappings) baseAddress = (m.base image).getD baseAddress := by
  rw [baseOf, passed, List.findIdx_cons, hcovers]
  cases hbase : m.base image <;> simp [hbase]

theorem baseOf_cons_of_not_covers (image : Image) (hcovers : m.covers request.pc = false) (mappings : List Mapping)
    (baseAddress : UInt64) : baseOf image request.pc (m :: mappings) baseAddress =
      baseOf image request.pc mappings ((m.base image).getD baseAddress) := by
  rw [baseOf, baseOf, passed, passed, List.findIdx_cons, hcovers, cond_false, List.take_succ_cons, List.reverse_cons,
    List.findSome?_append]
  cases (List.take (List.findIdx (Mapping.covers request.pc) mappings + 1) mappings).reverse.findSome?
    (Mapping.base image) with
  | none => cases hbase : m.base image <;> simp [hbase]
  | some baseAddress => rfl

/-- The base address of a mapping is read. -/
theorem readBaseAddress_line (mem : Pread) (m : Mapping) (base : UInt64) (call : Nat) : ∃ baseAddress call',
    readBaseAddress mem (m.flags ++ m.tail) m.start base call = .ok (baseAddress, call') ∧
      ∀ image : Image, image.Shown mem → baseAddress = (m.base image).getD base := by
  obtain ⟨⟨baseAddress, call'⟩, hread⟩ := @readBaseAddress_ok mem (m.flags ++ m.tail) m.start base call
  refine ⟨baseAddress, call', hread, fun image hshown => ?_⟩
  obtain ⟨call'', hbase⟩ := Image.readBaseAddress_image hshown (m.flags ++ m.tail) m.start base call
  rw [hread, List.head?_eq_getElem?] at hbase
  simp only [head?_flags] at hbase
  exact congrArg Prod.fst (Except.ok.inj hbase)

/-- A mapping that is not sought is skipped. -/
theorem mapsTurn_again (hread : s.reader.readLine maps mapsBuffer = .ok (some (bol, bol + m.line.length), reader))
    (hslice : reader.buf.slice bol m.line.length = m.line) (hcovers : m.covers request.pc = false) :
    ∃ baseAddress call, mapsTurn maps mem request s = .ok (.again ⟨reader, m.start, baseAddress, call⟩) ∧
      ∀ image : Image, image.Shown mem → baseAddress = (m.base image).getD s.baseAddress := by
  obtain ⟨baseAddress, call, hbase, htold⟩ := readBaseAddress_line mem m s.baseAddress s.memCall
  refine ⟨baseAddress, call, ?_, htold⟩
  rw [mapsTurn, hread]
  dsimp only
  rw [Nat.add_sub_cancel_left, hslice, parseRange_line]
  dsimp only
  rw [hbase]
  dsimp only
  by_cases hpc : m.start ≤ request.pc ∧ request.pc < m.stop
  · rw [if_neg (not_not_intro hpc), if_pos]
    rw [Mapping.covers, decide_eq_true hpc, Bool.true_and] at hcovers
    rw [Ne, Ne, head?_flags, third_flags, ← not_and_or, ← Bool.and_eq_true, hcovers]
    exact Bool.false_ne_true
  · rw [if_pos hpc]

/-- At the one that is sought the loop ends. -/
theorem mapsTurn_leave (hread : s.reader.readLine maps mapsBuffer = .ok (some (bol, bol + m.line.length), reader))
    (hslice : reader.buf.slice bol m.line.length = m.line) (hcovers : m.covers request.pc = true) :
    ∃ opened, mapsTurn maps mem request s = .ok (.leave opened) ∧ Finds request (some m) opened ∧
      ∀ image : Image, image.Shown mem → opened.baseAddress = (m.base image).getD s.baseAddress := by
  obtain ⟨baseAddress, call, hbase, htold⟩ := readBaseAddress_line mem m s.baseAddress s.memCall
  rw [Mapping.covers, Bool.and_eq_true, Bool.and_eq_true, decide_eq_true_eq] at hcovers
  obtain ⟨hpc, hreadable, hexecutable⟩ := hcovers
  have hflags : ¬ ((m.flags ++ m.tail)[0]? ≠ some 'r'.toUInt8 ∨ (m.flags ++ m.tail)[2]? ≠ some 'x'.toUInt8) := by
    rintro (h | h)
    · exact h (head?_flags.mpr hreadable)
    · exact h (third_flags.mpr hexecutable)
  have hstart : ∀ m' ∈ some m, m.start = m'.start := by
    rintro m' ⟨⟩
    rfl
  rw [mapsTurn, hread]
  dsimp only
  rw [Nat.add_sub_cancel_left, hslice, parseRange_line]
  dsimp only
  rw [hbase]
  dsimp only
  rw [if_neg (not_not_intro hpc), if_neg hflags, fileName_tail]
  cases hpath : m.path with
  | none =>
    have htext : m.pathText = none := by rw [Mapping.pathText, hpath]; rfl
    rw [htext]
    exact ⟨_, rfl, ⟨htext.symm, rfl, hstart⟩, htold⟩
  | some path =>
    have htext : m.pathText = some path.text := by rw [Mapping.pathText, hpath]; rfl
    rw [htext]
    dsimp only
    rw [takeWhile_text]
    cases hopen : request.openFile path.text with
    | none => exact ⟨_, rfl, ⟨htext.symm, hopen.symm, hstart⟩, htold⟩
    | some fd => exact ⟨_, rfl, ⟨htext.symm, hopen.symm, hstart⟩, htold⟩

/-- From the reader before the lines of some mappings on, the first one of them that is sought is found, and the base
address is the one that the headers in the memory tell. -/
theorem loop_mappings (hholds : Holds file maps) {mappings : List Mapping}
    (hat : At file mapsBuffer s.reader (joined lineFeed (mappings.map Mapping.line))) (hinside : Inside mapsBuffer s.reader)
    (hfits : ∀ m ∈ mappings, m.line.length < 1024) :
    ∃ fuel opened, loop (mapsTurn maps mem request) fuel s = some (.ok opened) ∧
      Finds request (mappings.find? (Mapping.covers request.pc)) opened ∧
      ∀ image : Image, image.Shown mem → opened.baseAddress = baseOf image request.pc mappings s.baseAddress := by
  induction mappings generalizing s with
  | nil =>
    have hnone : ∀ line rest,
        ¬ Starts lineFeed mapsBuffer.len (joined lineFeed (([] : List Mapping).map Mapping.line)) line rest := by
      intro line rest hstarts
      exact List.append_ne_nil_of_right_ne_nil line (List.cons_ne_nil _ rest) hstarts.eq.symm
    obtain ⟨reader, hread, -⟩ := readLine_of_not_starts hholds hat hinside hnone
    have hturn : mapsTurn maps mem request s =
        .ok (.leave ⟨none, none, s.startAddress, s.baseAddress, request.outFileName⟩) := by rw [mapsTurn, hread]
    refine ⟨1, _, loop_of_result (by rw [hturn]; rfl), ⟨rfl, rfl, fun m hm => ?_⟩, fun image _ => rfl⟩
    cases hm
  | cons m mappings ih =>
    obtain ⟨hfit, hfits⟩ := List.forall_mem_cons.mp hfits
    have hstarts : Starts lineFeed mapsBuffer.len (joined lineFeed ((m :: mappings).map Mapping.line)) m.line
        (joined lineFeed (mappings.map Mapping.line)) := ⟨joined_cons, lineFeed_notMem_line, hfit⟩
    obtain ⟨bol, reader, hread, hslice, -, hat', hinside'⟩ := readLine_of_starts hholds hat hinside hstarts
    cases hcovers : m.covers request.pc with
    | false =>
      obtain ⟨baseAddress, call, hturn, htold⟩ := @mapsTurn_again maps mem request s m reader bol hread hslice hcovers
      obtain ⟨fuel, opened, hloop, hfinds, hbase⟩ := @ih ⟨reader, m.start, baseAddress, call⟩ hat' hinside' hfits
      rw [List.find?_cons_of_neg (by rw [hcovers]; exact Bool.false_ne_true)]
      refine ⟨fuel + 1, opened, (loop_of_again hturn).trans hloop, hfinds, fun image hshown => ?_⟩
      rw [hbase image hshown, baseOf_cons_of_not_covers image hcovers, htold image hshown]
    | true =>
      obtain ⟨opened, hturn, hfinds, htold⟩ := @mapsTurn_leave maps mem request s m reader bol hread hslice hcovers
      rw [List.find?_cons_of_pos hcovers]
      refine ⟨1, opened, loop_of_result (by rw [hturn]; rfl), hfinds, fun image hshown => ?_⟩
      rw [baseOf_cons_of_covers image hcovers, htold image hshown]

/-- Whatever the mappings and the pc are, the function tries to open exactly the path of the first mapping that contains
the pc and may be read and executed, at whose start it is mapped, and returns -1 otherwise. -/
theorem openObjectFile_mappings (hholds : Holds file maps) (mem : Pread) (request : Request) {mappings : List Mapping}
    (hcontent : file.content = joined lineFeed (mappings.map Mapping.line)) (hfits : ∀ m ∈ mappings, m.line.length < 1024)
    (contents : Nat → UInt8) (startAddress baseAddress : UInt64) : ∃ fuel opened,
      openObjectFileContainingPcAndGetStartAddress fuel (some maps) (some mem) request contents startAddress baseAddress =
        some (.ok opened) ∧ Finds request (mappings.find? (Mapping.covers request.pc)) opened := by
  have hat : At file mapsBuffer (.create contents 0 0) (file.content.drop 0) := .first rfl (Nat.two_pow_pos 63)
  rw [List.drop_zero, hcontent] at hat
  obtain ⟨fuel, opened, hloop, hfinds, -⟩ := @loop_mappings file maps mem request
    ⟨.create contents 0 0, startAddress, baseAddress, 0⟩ hholds mappings hat
      (fun range hrange => absurd hrange List.not_mem_nil) hfits
  exact ⟨fuel, opened, hloop, hfinds⟩

end

/-- The stack lies before the program, and the pc in the program. -/
def mappingsTwo : List Mapping :=
  [⟨0x1000, 0x2000, true, true, false, false, 0, 0, 0, 0, 0, none⟩,
    ⟨0x2000, 0x3000, true, false, true, false, 0, 8, 1, 2142, 3,
      some ⟨[47, 97, 32, 98], ⟨47, _, rfl, by decide⟩, by decide⟩⟩]

theorem openObjectFile_mappings_two : ∃ fuel opened,
    openObjectFileContainingPcAndGetStartAddress fuel
        (some (File.pread ⟨joined lineFeed (mappingsTwo.map Mapping.line), by decide⟩)) (some ⟨fun _ _ _ => none, by simp⟩)
        ⟨0x2fff, ⟨fun _ => 0, []⟩, 16, fun _ => some 3⟩ (fun _ => 0) 0 0 = some (.ok opened) ∧
      Finds ⟨0x2fff, ⟨fun _ => 0, []⟩, 16, fun _ => some 3⟩ (mappingsTwo.find? (Mapping.covers 0x2fff)) opened :=
  openObjectFile_mappings (holds_pread _) _ _ rfl (by decide) _ _ _

end Glog.Symbolize
