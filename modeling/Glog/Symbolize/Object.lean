import Mathlib.Algebra.GroupWithZero.Nat
import Glog.Run.Loop

/-! # Symbols of an object file

The part of the symbolization that reads an open ELF file of 64 bits, in the byte order of the machine: the headers of the
sections are searched for a symbol table, and the table for the symbol of a pc. Everything comes from `pread`. -/

namespace Glog.Symbolize
open Run

abbrev Bytes := List UInt8

/-- What `pread` returns, call by call; `none` is an error other than `EINTR`, after which the call is made again. -/
structure Pread where
  read (call count offset : Nat) : Option Bytes
  length_le : ∀ {call count offset bytes}, read call count offset = some bytes → bytes.length ≤ count

inductive Fault
  | safeAssert
  | divisionByZero
  deriving DecidableEq

def safeAssert (p : Prop) [Decidable p] : Except Fault Unit := if p then .ok () else .error .safeAssert

theorem safeAssert_pos {p : Prop} [Decidable p] (h : p) : safeAssert p = .ok () := if_pos h

theorem safeAssert_neg {p : Prop} [Decidable p] (h : ¬ p) : safeAssert p = .error .safeAssert := if_neg h

/-! ### Reading -/

/-- What has been read, `none` for -1, and the number of the next call of `pread`. -/
structure Read where
  bytes : Option Bytes
  call : Nat

/-- The loop of `ReadFromOffset`; every turn but the last one reads a byte. -/
def readLoop (pread : Pread) (count offset : Nat) : Nat → Bytes → Nat → Read
  | 0, buf, call => ⟨some buf, call⟩
  | left + 1, buf, call =>
    if buf.length < count then
      match pread.read call (count - buf.length) ((offset + buf.length) % 2 ^ 64) with
      | none => ⟨none, call + 1⟩
      | some [] => ⟨some buf, call + 1⟩
      | some (b :: bytes) => readLoop pread count offset left (buf ++ b :: bytes) (call + 1)
    else ⟨some buf, call⟩

def readFromOffset (pread : Pread) (count offset call : Nat) : Except Fault Read := do
  safeAssert (count ≤ 2 ^ 63 - 1)
  let read := readLoop pread count offset count [] call
  match read.bytes with
  | none => return read
  | some buf =>
    safeAssert (buf.length ≤ count)
    return read

/-- A length is compared as a `size_t`. -/
def sizeOfLength : Option Bytes → Nat
  | none => 2 ^ 64 - 1
  | some buf => buf.length

def readFromOffsetExact (pread : Pread) (count offset call : Nat) : Except Fault Read := do
  let read ← readFromOffset pread count offset call
  if sizeOfLength read.bytes = count then return read else return { read with bytes := none }

/-! ### Records -/

/-- A number of so many bytes, the low one first. -/
def number (size offset : Nat) (record : Bytes) : Nat :=
  ((record.drop offset).take size).foldr (fun b n => b.toNat + 256 * n) 0

structure Ehdr where
  eShoff : Nat
  eShnum : Nat

structure Shdr where
  shType : Nat
  shOffset : Nat
  shSize : Nat
  shLink : Nat
  shEntsize : Nat
  deriving DecidableEq

structure Sym where
  stName : Nat
  stShndx : Nat
  stValue : Nat
  stSize : Nat
  deriving DecidableEq

def ehdr (record : Bytes) : Ehdr := ⟨number 8 40 record, number 2 60 record⟩

def shdr (record : Bytes) : Shdr :=
  ⟨number 4 4 record, number 8 24 record, number 8 32 record, number 4 40 record, number 8 56 record⟩

def sym (record : Bytes) : Sym := ⟨number 4 0 record, number 2 6 record, number 8 8 record, number 8 16 record⟩

/-- The records of a buffer. -/
def records (size count : Nat) (buf : Bytes) : List Bytes :=
  (List.range count).map fun j => (buf.drop (size * j)).take size

/-! ### Loops -/

/-- The index of a loop and the number of the next call of `pread`. -/
structure Cursor where
  i : Nat
  call : Nat

structure Section where
  header : Option Shdr
  call : Nat

/-- A turn of the loop of `GetSectionHeaderByType`. -/
def sectionTurn (pread : Pread) (shNum shOffset type : Nat) (s : Cursor) : Except Fault (Turn Cursor Section) :=
  if s.i < shNum then do
    -- Read at most 16 section headers at a time to save read calls.
    let numBytesLeft := (shNum - s.i) * 64
    let numBytesToRead := if 16 * 64 > numBytesLeft then numBytesLeft else 16 * 64
    let read ← readFromOffset pread numBytesToRead ((shOffset + s.i * 64) % 2 ^ 64) s.call
    match read.bytes with
    | none => return .leave ⟨none, read.call⟩
    | some buf =>
      safeAssert (buf.length % 64 = 0)
      let numHeadersInBuf := buf.length / 64
      safeAssert (numHeadersInBuf ≤ 16)
      match (records 64 numHeadersInBuf buf).find? fun record => (shdr record).shType == type with
      | some record => return .leave ⟨some (shdr record), read.call⟩
      | none => return .again ⟨s.i + numHeadersInBuf, read.call⟩
  else return .leave ⟨none, s.call⟩

def getSectionHeaderByType (fuel : Nat) (pread : Pread) (shNum shOffset type call : Nat) : Option (Except Fault Section) :=
  loop (sectionTurn pread shNum shOffset type) fuel ⟨0, call⟩

/-- Whether a symbol contains a pc. -/
def contains (pc symbolOffset : Nat) (symbol : Sym) : Bool :=
  let startAddress := (symbol.stValue + symbolOffset) % 2 ^ 64
  let endAddress := (startAddress + symbol.stSize) % 2 ^ 64
  symbol.stValue != 0 &&  -- Skip null value symbols.
    symbol.stShndx != 0 &&  -- Skip undefined symbols.
    decide (startAddress ≤ pc ∧ pc < endAddress)

/-- Whether the symbol has been found, and the buffer. -/
structure Found where
  found : Bool
  out : Bytes
  call : Nat

/-- The name of a symbol is put into the buffer. -/
def readName (pread : Pread) (out : Bytes) (strtab : Shdr) (symbol : Sym) (call : Nat) : Except Fault Found := do
  let read ← readFromOffset pread out.length ((strtab.shOffset + symbol.stName) % 2 ^ 64) call
  let len1 := read.bytes.getD []
  let written := len1 ++ out.drop len1.length
  if len1 = [] ∨ 0 ∉ written then return ⟨false, List.replicate out.length 0, read.call⟩
  else return ⟨true, written, read.call⟩

/-- A turn of the loop of `FindSymbol`. -/
def symbolTurn (pread : Pread) (pc : Nat) (out : Bytes) (symbolOffset : Nat) (strtab symtab : Shdr) (numSymbols : Nat)
    (s : Cursor) : Except Fault (Turn Cursor Found) :=
  if s.i < numSymbols then do
    let offset := (symtab.shOffset + s.i * symtab.shEntsize) % 2 ^ 64
    -- Read at most 32 symbols at once to save read() calls.
    let numSymbolsToRead := min 32 (numSymbols - s.i)
    let read ← readFromOffset pread (24 * numSymbolsToRead) offset s.call
    let len := sizeOfLength read.bytes
    safeAssert (len % 24 = 0)
    let numSymbolsInBuf := len / 24
    safeAssert (numSymbolsInBuf ≤ numSymbolsToRead)
    match (records 24 numSymbolsInBuf (read.bytes.getD [])).find? fun record => contains pc symbolOffset (sym record) with
    | some record =>
      let found ← readName pread out strtab (sym record) read.call
      return .leave found
    | none => return .again ⟨(s.i + numSymbolsInBuf) % 2 ^ 32, read.call⟩
  else return .leave ⟨false, out, s.call⟩

def findSymbol (fuel : Nat) (pread : Pread) (pc : Nat) (out : Bytes) (symbolOffset : Nat) (strtab symtab : Shdr)
    (call : Nat) : Option (Except Fault Found) :=
  if symtab.shEntsize = 0 then some (.error .divisionByZero)
  else loop (symbolTurn pread pc out symbolOffset strtab symtab (symtab.shSize / symtab.shEntsize)) fuel ⟨0, call⟩

/-! ### The whole search -/

abbrev Machine := ExceptT Fault Option

def Machine.of {α : Type} (x : Except Fault α) : Machine α := ExceptT.mk (some x)

def shtSymtab : Nat := 2

def shtDynsym : Nat := 11

/-- One of the two tables is consulted; with the result it is said whether the search is over. -/
def consult (fuel : Nat) (pread : Pread) (pc : Nat) (baseAddress : Nat) (elfHeader : Ehdr) (type : Nat) (out : Bytes)
    (call : Nat) : Machine (Found × Bool) := do
  let sec ← ExceptT.mk (getSectionHeaderByType fuel pread elfHeader.eShnum elfHeader.eShoff type call)
  match sec.header with
  | none => return (⟨false, out, sec.call⟩, false)
  | some symtab =>
    let read ← Machine.of (readFromOffsetExact pread 64 ((elfHeader.eShoff + symtab.shLink * 64) % 2 ^ 64) sec.call)
    match read.bytes with
    | none => return (⟨false, out, read.call⟩, true)
    | some record =>
      let found ← ExceptT.mk (findSymbol fuel pread pc out baseAddress (shdr record) symtab read.call)
      return (found, found.found)

def getSymbolFromObjectFile (fuel : Nat) (pread : Pread) (pc : Nat) (out : Bytes) (baseAddress call : Nat) :
    Machine Found := do
  -- Read the ELF header.
  let read ← Machine.of (readFromOffsetExact pread 64 0 call)
  match read.bytes with
  | none => return ⟨false, out, read.call⟩
  | some record =>
    -- Consult a regular symbol table first.
    let regular ← consult fuel pread pc baseAddress (ehdr record) shtSymtab out read.call
    if regular.2 then return regular.1
    else
      -- If the symbol is not found, then consult a dynamic symbol table.
      let dynamic ← consult fuel pread pc baseAddress (ehdr record) shtDynsym regular.1.out regular.1.call
      return dynamic.1

end Glog.Symbolize
