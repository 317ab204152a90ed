import Glog.Memory.Strings
import Glog.Symbolize.GetHex
import Glog.Symbolize.LineReader

/-! # The object file of a pc

The lines of `/proc/self/maps` are read one by one, up to the first mapping that contains the pc and may be executed. A
cursor into a line is what is left of it, up to `eol`. -/

namespace Glog.Symbolize
open Memory Run

/-! ### The base address -/

/-- The fields of the ELF header and of a program header that are looked at. -/
def eIdentMagic (ehdr : Bytes) : Bytes := ehdr.take 4
def eType (ehdr : Bytes) : Nat := number 2 16 ehdr
def ePhoff (ehdr : Bytes) : Nat := number 8 32 ehdr
def ePhnum (ehdr : Bytes) : Nat := number 2 56 ehdr
def pType (phdr : Bytes) : Nat := number 4 0 phdr
def pOffset (phdr : Bytes) : Nat := number 8 8 phdr
def pVaddr (phdr : Bytes) : Nat := number 8 16 phdr

def elfMag : Bytes := [0x7f, 'E'.toUInt8, 'L'.toUInt8, 'F'.toUInt8]
def etExec : Nat := 2
def etDyn : Nat := 3
def ptLoad : Nat := 1

/-- The loop over the program headers, with the number of those left, and `i`. -/
def segmentLoop (mem : Pread) (startAddress : UInt64) (phoff : Nat) : Nat → Nat → Nat → Except Fault (UInt64 × Nat)
  | 0, _, call => .ok (startAddress, call)
  | left + 1, i, call => do
    let read ← readFromOffsetExact mem 56 ((startAddress.toNat + phoff + i * 56) % 2 ^ 64) call
    let phdr := read.bytes.getD []
    if read.bytes.isSome ∧ pType phdr = ptLoad ∧ pOffset phdr = 0 then
      .ok (startAddress - UInt64.ofNat (pVaddr phdr), read.call)
    else segmentLoop mem startAddress phoff left (i + 1) read.call

/-- Determine the base address by reading ELF headers in process memory. -/
def readBaseAddress (mem : Pread) (flagsStart : Bytes) (startAddress baseAddress : UInt64) (call : Nat) :
    Except Fault (UInt64 × Nat) :=
  -- Skip non-readable maps.
  if flagsStart.head? = some 'r'.toUInt8 then do
    let read ← readFromOffsetExact mem 64 startAddress.toNat call
    let ehdr := read.bytes.getD []
    if read.bytes.isSome ∧ eIdentMagic ehdr = elfMag then
      if eType ehdr = etExec then .ok (0, read.call)
      else if eType ehdr = etDyn then segmentLoop mem startAddress (ePhoff ehdr) (ePhnum ehdr) 0 read.call
      else .ok (baseAddress, read.call)
    else .ok (baseAddress, read.call)
  else .ok (baseAddress, call)

/-! ### A line -/

def space : UInt8 := ' '.toUInt8

/-- The cursor behind a character, if it points to this one. -/
def expect (c : Char) : Bytes → Option Bytes
  | [] => none
  | ch :: cursor => if ch = c.toUInt8 then some cursor else none

/-- What is read up to the flags, with the cursor behind them. -/
structure Range where
  endAddress : UInt64
  flagsStart : Bytes
  cursor : Bytes

/-- The start address, and what follows it unless the line is malformed. -/
def parseRange (line : Bytes) : UInt64 × Option Range :=
  let (startAddress, cursor) := getHex line
  (startAddress, do
    let cursor ← expect '-' cursor
    let (endAddress, cursor) := getHex cursor
    let flagsStart ← expect ' ' cursor
    let cursor := flagsStart.dropWhile (· ≠ space)
    -- We expect at least four letters for flags.
    if cursor = [] ∨ flagsStart.length - cursor.length < 4 then none else some ⟨endAddress, flagsStart, cursor⟩)

/-- The loop that skips the device and the inode, with `num_spaces`. -/
def skipToFileName : Nat → Bytes → Bytes
  | _, [] => []
  | numSpaces, ch :: cursor =>
    if ch = space then skipToFileName (numSpaces + 1) cursor
    else if 2 ≤ numSpaces then ch :: cursor
    else skipToFileName numSpaces cursor

/-- The file name, from the cursor behind the flags on, unless the line is malformed. -/
def fileName (cursor : Bytes) : Option Bytes := do
  let (_, cursor) := getHex (cursor.drop 1)
  let cursor ← expect ' ' cursor
  let name := skipToFileName 0 cursor
  if name = [] then none else some name

/-! ### The loop -/

inductive MapsFault
  | line (fault : LineFault)
  | read (fault : Fault)

/-- What the function is called with. -/
structure Request where
  pc : UInt64
  outFileName : Cells UInt8
  outFileNameSize : Nat
  /-- `open`, which gives a descriptor or fails. -/
  openFile : Bytes → Option Nat

structure MapsState where
  reader : LineReader
  startAddress : UInt64
  baseAddress : UInt64
  memCall : Nat

structure Opened where
  /-- `none` is -1. -/
  fd : Option Nat
  /-- The file that it has been tried to open. -/
  tried : Option Bytes
  startAddress : UInt64
  baseAddress : UInt64
  outFileName : Cells UInt8

/-- `char buf[1024]` -/
def mapsBuffer : LineBuffer := ⟨1024, by decide, by decide⟩

def mapsTurn (maps mem : Pread) (request : Request) (s : MapsState) : Except MapsFault (Turn MapsState Opened) :=
  match s.reader.readLine maps mapsBuffer with
  | .error fault => .error (.line fault)
  | .ok (none, _) => .ok (.leave ⟨none, none, s.startAddress, s.baseAddress, request.outFileName⟩)
  | .ok (some (bol, eol), reader) =>
    match parseRange (reader.buf.slice bol (eol - bol)) with
    | (startAddress, none) => .ok (.leave ⟨none, none, startAddress, s.baseAddress, request.outFileName⟩)
    | (startAddress, some range) =>
      match readBaseAddress mem range.flagsStart startAddress s.baseAddress s.memCall with
      | .error fault => .error (.read fault)
      | .ok (baseAddress, memCall) =>
        if ¬ (startAddress ≤ request.pc ∧ request.pc < range.endAddress) then
          .ok (.again ⟨reader, startAddress, baseAddress, memCall⟩)
        else if range.flagsStart[0]? ≠ some 'r'.toUInt8 ∨ range.flagsStart[2]? ≠ some 'x'.toUInt8 then
          .ok (.again ⟨reader, startAddress, baseAddress, memCall⟩)
        else
          match fileName range.cursor with
          | none => .ok (.leave ⟨none, none, startAddress, baseAddress, request.outFileName⟩)
          | some cursor =>
            let name := cursor.takeWhile (· ≠ 0)
            match request.openFile name with
            | none =>
              let outFileName :=
                (request.outFileName.strncpy 0 0 name request.outFileNameSize).write (request.outFileNameSize - 1) 0
              .ok (.leave ⟨none, some name, startAddress, baseAddress, outFileName⟩)
            | some fd => .ok (.leave ⟨some fd, some name, startAddress, baseAddress, request.outFileName⟩)

/-- `OpenObjectFileContainingPcAndGetStartAddress`, on the two files if they have been opened. -/
def openObjectFileContainingPcAndGetStartAddress (fuel : Nat) (maps mem : Option Pread) (request : Request)
    (contents : Nat → UInt8) (startAddress baseAddress : UInt64) : Option (Except MapsFault Opened) :=
  match maps, mem with
  | some maps, some mem => loop (mapsTurn maps mem request) fuel ⟨.create contents 0 0, startAddress, baseAddress, 0⟩
  | _, _ => some (.ok ⟨none, none, startAddress, baseAddress, request.outFileName⟩)

/-! ### The base address is found -/

section
variable {mem : Pread} {flagsStart : Bytes} {startAddress baseAddress : UInt64} {phoff left i call : Nat}

theorem segmentLoop_ok : ∃ r, segmentLoop mem startAddress phoff left i call = .ok r := by
  induction left generalizing i call with
  | zero => exact ⟨_, rfl⟩
  | succ left ih =>
    obtain ⟨read, hread⟩ := readFromOffsetExact_ok (show 56 < 2 ^ 63 by decide) mem
      ((startAddress.toNat + phoff + i * 56) % 2 ^ 64) call
    rw [segmentLoop, hread]
    dsimp only [Bind.bind, Except.bind]
    split
    · exact ⟨_, rfl⟩
    · exact ih

theorem readBaseAddress_ok : ∃ r, readBaseAddress mem flagsStart startAddress baseAddress call = .ok r := by
  obtain ⟨read, hread⟩ := readFromOffsetExact_ok (show 64 < 2 ^ 63 by decide) mem startAddress.toNat call
  rw [readBaseAddress, hread]
  dsimp only [Bind.bind, Except.bind]
  repeat' split
  all_goals first | exact segmentLoop_ok | exact ⟨_, rfl⟩

end

end Glog.Symbolize
