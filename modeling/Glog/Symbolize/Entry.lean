import Mathlib.Data.List.TakeWhile
import Glog.Demangle.Terminator
import Glog.Symbolize.Itoa
import Glog.Symbolize.Maps

/-! # From a pc to a name

`SymbolizeAndDemangle` puts the parts of the symbolizer together in the buffer of its caller: the object file of the pc is
opened, its symbol is read, and its name demangled. Without the object file there is still the name of the file, with the
place in it. -/

namespace Glog.Symbolize
open Memory Run

inductive SymbolizeFault
  | maps (fault : MapsFault)
  | object (fault : Fault)
  | append (fault : AppendFault)
  /-- A read behind the end of a buffer. -/
  | outOfBounds
  | safeAssert

abbrev SymbolizeM := ExceptT SymbolizeFault Option

def SymbolizeM.of {ε α : Type} (f : ε → SymbolizeFault) (x : Option (Except ε α)) : SymbolizeM α :=
  ExceptT.mk (x.map (Except.mapError f))

def SymbolizeM.done {α : Type} (x : Except SymbolizeFault α) : SymbolizeM α := ExceptT.mk (some x)

/-- `g_symbolize_callback`, on the descriptor, the pc, the buffer with its size, and the relocation: what it returns,
and the buffer. -/
abbrev SymbolizeCallback := Nat → UInt64 → Cells UInt8 → Nat → UInt64 → Int × Cells UInt8

/-- The files and the memory that the function finds. -/
structure Host where
  /-- The two files of `/proc/self`, if they can be opened. -/
  maps : Option Pread
  mem : Option Pread
  openFile : Bytes → Option Nat
  object : Nat → Pread
  symbolizeCallback : Option SymbolizeCallback
  /-- `g_symbolize_open_object_file_callback`, on the pc, the buffer for the file name and its size. -/
  openObjectFileCallback : Option (UInt64 → Cells UInt8 → Nat → Opened)
  /-- What the arrays on the stack hold. -/
  buf : Nat → UInt8
  digits : Buf 17
  demangled : Nat → Char

/-! ### The parts -/

theorem toUInt8_ofUInt8 (b : UInt8) : (Char.ofUInt8 b).toUInt8 = b := UInt8.toUInt8_toUInt32 b

theorem ofUInt8_eq_nul {b : UInt8} : Char.ofUInt8 b = '\x00' ↔ b = 0 := by
  constructor
  · intro h
    have hbyte := congrArg Char.toUInt8 h
    rwa [toUInt8_ofUInt8] at hbyte
  · rintro rfl
    rfl

def appendString (source : LogFile.Text) (size : Nat) (out : Cells UInt8) : Except SymbolizeFault (Cells UInt8) :=
  match safeAppendString source size (out.map Char.ofUInt8) with
  | .ok out => .ok (out.map Char.toUInt8)
  | .error fault => .error (.append fault)

def appendHexNumber (value : UInt64) (digits : Buf 17) (size : Nat) (out : Cells UInt8) :
    Except SymbolizeFault (Cells UInt8) :=
  match safeAppendHexNumber value digits size (out.map Char.ofUInt8) with
  | .ok out => .ok (out.map Char.toUInt8)
  | .error fault => .error (.append fault)

def readOut (size i : Nat) (out : Cells UInt8) : Except SymbolizeFault UInt8 :=
  if i < size then .ok (out.cell i) else .error .outOfBounds

/-- `FileGetElfType`; `none` is -1. -/
def fileGetElfType (pread : Pread) (call : Nat) : Except Fault (Option Nat × Nat) := do
  let read ← readFromOffsetExact pread 64 0 call
  match read.bytes with
  | none => return (none, read.call)
  | some record => if eIdentMagic record ≠ elfMag then return (none, read.call) else return (some (eType record), read.call)

/-- A string as the demangler reads it. -/
def mangledName (name : Bytes) (h : 0 ∉ name) : Demangle.CString where
  chars := name.map Char.ofUInt8
  nulFree hmem := by
    obtain ⟨b, hb, hnul⟩ := List.mem_map.mp hmem
    exact h (ofUInt8_eq_nul.mp hnul ▸ hb)

theorem nul_notMem_string (size : Nat) (out : Cells UInt8) : 0 ∉ out.string 0 0 size := fun hmem => by
  simpa using List.mem_takeWhile_imp hmem

/-- `DemangleInplace`, with `char demangled[256]`. -/
def demangleInplace (demangled : Nat → Char) (size : Nat) (out : Cells UInt8) : Except SymbolizeFault (Cells UInt8) :=
  let mangled := mangledName (out.string 0 0 size) (nul_notMem_string size out)
  let answer := Demangle.demangle mangled (some demangled) 256
  if answer.1 then
    match Demangle.cString 256 answer.2 with
    | none => .error .outOfBounds
    | some text =>
      if text.length + 1 ≤ size then
        if text.length < 256 then .ok ((out.store 0 (text.map Char.toUInt8)).write text.length 0) else .error .safeAssert
      else .ok out
  else .ok out

/-- The place in the object file behind its name. -/
def appendOffset (digits : Buf 17) (offset : UInt64) (size : Nat) (out : Cells UInt8) :
    Except SymbolizeFault (Cells UInt8) := do
  let out := out.write (size - 1) 0
  let out ← appendString "+0x".toList size out
  let out ← appendHexNumber offset digits size out
  appendString ")".toList size out

/-- `g_symbolize_callback` if there is one, with the number of bytes by which the buffer gets shorter. -/
def callBack (host : Host) (fd : Nat) (pc relocation : UInt64) (size : Nat) (out : Cells UInt8) : Nat × Cells UInt8 :=
  match host.symbolizeCallback with
  | none => (0, out)
  | some callback =>
    let answer := callback fd pc out size relocation
    (answer.1.toNat, answer.2)

/-! ### The function -/

def openObjectFile (fuel : Nat) (host : Host) (pc : UInt64) (outFileName : Cells UInt8) (size : Nat) :
    Option (Except MapsFault Opened) :=
  match host.openObjectFileCallback with
  | some callback => some (.ok (callback pc outFileName size))
  | none =>
    openObjectFileContainingPcAndGetStartAddress fuel host.maps host.mem ⟨pc, outFileName, size, host.openFile⟩ host.buf 0 0

/-- What is done with an object file that is open. -/
def symbolizeObject (fuel : Nat) (host : Host) (pc : UInt64) (fd : Nat) (startAddress baseAddress : UInt64) (size : Nat)
    (out : Cells UInt8) : SymbolizeM (Bool × Cells UInt8) := do
  let (elfType, call) ← SymbolizeM.of .object (some (fileGetElfType (host.object fd) 0))
  match elfType with
  | none => return (false, out)
  | some elfType =>
    let (start, out) := callBack host fd pc (if elfType = etDyn then startAddress else 0) size out
    let found ← SymbolizeM.of .object
      (getSymbolFromObjectFile fuel (host.object fd) pc.toNat (out.slice start (size - start)) baseAddress.toNat call)
    let symbol := (out.drop start).store 0 found.out
    if found.found then
      let symbol ← SymbolizeM.done (demangleInplace host.demangled (size - start) symbol)
      return (true, out.put start symbol)
    else
      let out := out.put start symbol
      let c ← SymbolizeM.done (readOut size (start + 1) out)
      if c ≠ 0 ∧ host.symbolizeCallback.isNone then
        let out ← SymbolizeM.done (appendOffset host.digits (pc - baseAddress) size out)
        return (true, out)
      else return (false, out)

/-- What is done when the object file has been looked for. -/
def symbolizeOpened (fuel : Nat) (host : Host) (pc : UInt64) (opened : Opened) (size : Nat) (out : Cells UInt8) :
    SymbolizeM (Bool × Cells UInt8) :=
  match opened.fd with
  | none => do
    -- Check whether a file name was returned.
    let c ← SymbolizeM.done (readOut size 1 out)
    if c ≠ 0 then
      let out ← SymbolizeM.done (appendOffset host.digits (pc - opened.baseAddress) size out)
      return (true, out)
    else return (false, out)
  | some fd => symbolizeObject fuel host pc fd opened.startAddress opened.baseAddress size out

def symbolizeAndDemangle (fuel : Nat) (host : Host) (pc : UInt64) (size : Nat) (out : Cells UInt8) :
    SymbolizeM (Bool × Cells UInt8) :=
  if size < 1 then return (false, out)
  else do
    let out ← SymbolizeM.done (appendString ['('] size (out.write 0 0))
    let opened ← SymbolizeM.of .maps (openObjectFile fuel host pc (out.drop 1) (size - 1))
    symbolizeOpened fuel host pc opened size (out.put 1 opened.outFileName)

end Glog.Symbolize
