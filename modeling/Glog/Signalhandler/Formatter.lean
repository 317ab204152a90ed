import Glog.LogFile.Object
import Glog.Memory.Cells
import Glog.Run.Guarded

/-! # Formatting in the signal handler

`MinimalFormatter` appends to a buffer that it has been given. Pointers are offsets from the beginning of the buffer; the
memory goes on behind its end. Strings and numbers are cut off at the end of the buffer. A padded number is not: it
is moved to the right as far as its width asks, so the formatter stays in the buffer exactly if every width does. -/

namespace Glog.Signalhandler
open LogFile Memory Run

structure MinimalFormatter where
  cursor : Nat
  end_ : Nat
  memory : Cells Char

namespace MinimalFormatter

/-- A formatter for a buffer of a size, in which there may be anything. -/
def create (content : Nat → Char) (size : Nat) : MinimalFormatter := ⟨0, size, ⟨content, []⟩⟩

def numBytesWritten (f : MinimalFormatter) : Nat := f.cursor

/-- The loop of `AppendString`, with `i`: it stops at the terminator or at the end of the buffer. -/
def appendStringLoop (cursor end_ : Nat) : Text → Nat → Cells Char → Nat × Cells Char
  | [], i, m => (i, m)
  | c :: str, i, m =>
    if c ≠ '\x00' ∧ cursor + i < end_ then appendStringLoop cursor end_ str (i + 1) (m.write (cursor + i) c) else (i, m)

def appendString (str : Text) (f : MinimalFormatter) : MinimalFormatter :=
  let (i, memory) := appendStringLoop f.cursor f.end_ str 0 f.memory
  { f with cursor := f.cursor + i, memory := memory }

def digit (tmp : Nat) : Char := if tmp < 10 then Char.ofNat (48 + tmp) else Char.ofNat (97 + tmp - 10)

/-- The loop of `AppendUint64`, with the bytes left in the buffer, `number` and `i`: the last digit comes first. -/
def appendUint64Loop (cursor radix : Nat) : Nat → Nat → Nat → Cells Char → Nat × Cells Char
  | 0, _, i, m => (i, m)
  | left + 1, number, i, m =>
    let m := m.write (cursor + i) (digit (number % radix))
    if number / radix = 0 then (i + 1, m) else appendUint64Loop cursor radix left (number / radix) (i + 1) m

def appendUint64 (number : UInt64) (radix : Nat) (f : MinimalFormatter) : MinimalFormatter :=
  let (i, memory) := appendUint64Loop f.cursor radix (f.end_ - f.cursor) number.toNat 0 f.memory
  { f with cursor := f.cursor + i, memory := memory.reverse f.cursor i }

/-- The text of a padded number, before it is moved. -/
def appendHex (number : UInt64) (f : MinimalFormatter) : MinimalFormatter :=
  (f.appendString ['0', 'x']).appendUint64 number 16

def appendHexWithPadding (number : UInt64) (width : Int) (f : MinimalFormatter) : MinimalFormatter :=
  let start := f.cursor
  let f := f.appendHex number
  if (f.cursor : Int) < start + width then
    let delta := (start + width - f.cursor).toNat
    -- neither the copy nor the padding is bounded by the end of the buffer
    { f with
      cursor := start + width.toNat
      memory := (f.memory.copy start (start + delta) (f.cursor - start)).fill start ' ' delta }
  else f

end MinimalFormatter

/-- A call of one of the three functions. -/
inductive Append
  | string (str : Text)
  | uint64 (number : UInt64) (radix : Nat)
  | hexWithPadding (number : UInt64) (width : Int)

def MinimalFormatter.append (f : MinimalFormatter) : Append → MinimalFormatter
  | .string str => f.appendString str
  | .uint64 number radix => f.appendUint64 number radix
  | .hexWithPadding number width => f.appendHexWithPadding number width

/-- The calls of `DumpStackFrameInfo`, on a buffer of 1024 bytes, with the symbol that it has found. -/
def dumpStackFrameInfo (framePrefix symbol : Text) (pc : UInt64) : List Append :=
  [.string framePrefix, .string ['@', ' '], .hexWithPadding pc 18, .string [' '], .string symbol, .string ['\n']]

/-- The cursor is in the buffer or at its end, and nothing has been written behind it. -/
structure Inside (size : Nat) (f : MinimalFormatter) : Prop where
  cursor : f.cursor ≤ size
  numBytesWritten : f.numBytesWritten ≤ size
  written : ∀ i ∈ f.memory.written, i < size

/-- There is room for the width of a padded number. -/
def Fits (size : Nat) (f : MinimalFormatter) : Append → Prop
  | .string _ => True
  | .uint64 _ _ => True
  | .hexWithPadding _ width => f.cursor + width ≤ size

/-- What is appended is written from the old cursor to the new one. -/
structure Extends (f f' : MinimalFormatter) : Prop where
  end_ : f'.end_ = f.end_
  cursor : f.cursor ≤ f'.cursor
  writes : Writes f.cursor f'.cursor f.memory f'.memory

section
open MinimalFormatter
variable {f f' f'' : MinimalFormatter} {str : Text} {number : UInt64} {radix size : Nat} {width : Int}

theorem Extends.trans (h : Extends f f') (h' : Extends f' f'') : Extends f f'' where
  end_ := h'.end_.trans h.end_
  cursor := Nat.le_trans h.cursor h'.cursor
  writes := (h.writes.mono (Nat.le_refl _) h'.cursor).trans (h'.writes.mono h.cursor (Nat.le_refl _))

theorem Inside.extend (h : Inside size f) (he : Extends f f') (hcursor : f'.cursor ≤ size) : Inside size f' :=
  ⟨hcursor, hcursor, he.writes.before h.written hcursor⟩

/-! ### The loops -/

theorem appendStringLoop_writes (cursor end_ : Nat) : ∀ (str : Text) (i : Nat) (m : Cells Char),
    let r := appendStringLoop cursor end_ str i m
    i ≤ r.1 ∧ (cursor + i ≤ end_ → cursor + r.1 ≤ end_) ∧ Writes (cursor + i) (cursor + r.1) m r.2 := by
  intro str
  induction str with
  | nil => exact fun i m => ⟨Nat.le_refl i, id, Writes.refl ..⟩
  | cons c str ih =>
    intro i m
    dsimp only
    rw [appendStringLoop]
    split
    · rename_i hcond
      obtain ⟨hle, hend, hwrites⟩ := ih (i + 1) (m.write (cursor + i) c)
      refine ⟨by omega, fun _ => hend (by omega), ?_⟩
      exact (write_writes (Nat.le_refl _) (by omega)).trans (hwrites.mono (by omega) (Nat.le_refl _))
    · exact ⟨Nat.le_refl i, id, Writes.refl ..⟩

theorem appendStringLoop_le (cursor end_ : Nat) : ∀ (str : Text) (i : Nat) (m : Cells Char),
    (appendStringLoop cursor end_ str i m).1 ≤ i + str.length := by
  intro str
  induction str with
  | nil => exact fun i m => Nat.le_refl i
  | cons c str ih =>
    intro i m
    rw [appendStringLoop, List.length_cons]
    split
    · have hle := ih (i + 1) (m.write (cursor + i) c)
      omega
    · exact Nat.le_add_right ..

theorem appendUint64Loop_writes (cursor radix : Nat) : ∀ (left number i : Nat) (m : Cells Char),
    let r := appendUint64Loop cursor radix left number i m
    i ≤ r.1 ∧ r.1 ≤ i + left ∧ Writes (cursor + i) (cursor + r.1) m r.2 := by
  intro left
  induction left with
  | zero => exact fun number i m => ⟨Nat.le_refl i, Nat.le_refl _, Writes.refl ..⟩
  | succ left ih =>
    intro number i m
    dsimp only
    rw [appendUint64Loop]
    have hwrite : Writes (cursor + i) (cursor + (i + 1)) m (m.write (cursor + i) (digit (number % radix))) :=
      write_writes (Nat.le_refl _) (by omega)
    split
    · exact ⟨by omega, by omega, hwrite⟩
    · obtain ⟨hle, hleft, hwrites⟩ := ih (number / radix) (i + 1) (m.write (cursor + i) (digit (number % radix)))
      refine ⟨by omega, by omega, ?_⟩
      exact (hwrite.mono (Nat.le_refl _) (by omega)).trans (hwrites.mono (by omega) (Nat.le_refl _))

/-! ### The calls -/

theorem appendString_extends : Extends f (f.appendString str) where
  end_ := rfl
  cursor := Nat.le_add_right ..
  writes := (appendStringLoop_writes f.cursor f.end_ str 0 f.memory).2.2

theorem appendString_le (h : f.cursor ≤ f.end_) : (f.appendString str).cursor ≤ f.end_ :=
  (appendStringLoop_writes f.cursor f.end_ str 0 f.memory).2.1 h

theorem appendString_cursor_le (f : MinimalFormatter) (str : Text) :
    (f.appendString str).cursor ≤ f.cursor + str.length := by
  have hle := appendStringLoop_le f.cursor f.end_ str 0 f.memory
  have hcursor : (f.appendString str).cursor = f.cursor + (appendStringLoop f.cursor f.end_ str 0 f.memory).1 := rfl
  omega

theorem appendUint64_extends : Extends f (f.appendUint64 number radix) where
  end_ := rfl
  cursor := Nat.le_add_right ..
  writes := (appendUint64Loop_writes f.cursor radix (f.end_ - f.cursor) number.toNat 0 f.memory).2.2.trans reverse_writes

theorem appendUint64_le (h : f.cursor ≤ f.end_) : (f.appendUint64 number radix).cursor ≤ f.end_ := by
  obtain ⟨-, hle, -⟩ := appendUint64Loop_writes f.cursor radix (f.end_ - f.cursor) number.toNat 0 f.memory
  have hcursor : (f.appendUint64 number radix).cursor
      = f.cursor + (appendUint64Loop f.cursor radix (f.end_ - f.cursor) number.toNat 0 f.memory).1 := rfl
  omega

theorem appendHex_extends (f : MinimalFormatter) (number : UInt64) : Extends f (f.appendHex number) :=
  appendString_extends.trans appendUint64_extends

theorem appendHex_le (h : f.cursor ≤ f.end_) : (f.appendHex number).cursor ≤ f.end_ :=
  appendUint64_le (f := f.appendString ['0', 'x']) (appendString_le h)

/-- A padded number ends behind its text or behind its width, whichever is longer. -/
theorem cursor_appendHexWithPadding (f : MinimalFormatter) (number : UInt64) (width : Int) :
    ((f.appendHexWithPadding number width).cursor : Int)
    = max ((f.appendHex number).cursor : Int) (f.cursor + width) := by
  have hle := (appendHex_extends f number).cursor
  unfold appendHexWithPadding
  dsimp only
  split
  · change ((f.cursor + width.toNat : Nat) : Int) = _
    omega
  · omega

theorem appendHexWithPadding_extends : Extends f (f.appendHexWithPadding number width) := by
  have htext := appendHex_extends f number
  unfold appendHexWithPadding
  dsimp only
  split
  · rename_i hpad
    have hle := htext.cursor
    refine ⟨htext.end_, Nat.le_add_right .., ?_⟩
    change Writes f.cursor (f.cursor + width.toNat) f.memory _
    refine (htext.writes.mono (Nat.le_refl _) ?_).trans
      ((copy_writes.mono ?_ ?_).trans (fill_writes.mono (Nat.le_refl _) ?_))
    all_goals omega
  · exact htext

/-- Exactly the width of a padded number decides whether a call stays in the buffer. -/
theorem inside_append_iff (hend : f.end_ = size) (h : Inside size f) (a : Append) :
    Inside size (f.append a) ↔ Fits size f a := by
  have hcursor : f.cursor ≤ f.end_ := hend ▸ h.cursor
  cases a with
  | string str => exact ⟨fun _ => trivial, fun _ => h.extend appendString_extends (hend ▸ appendString_le hcursor)⟩
  | uint64 number radix =>
    exact ⟨fun _ => trivial, fun _ => h.extend appendUint64_extends (hend ▸ appendUint64_le hcursor)⟩
  | hexWithPadding number width =>
    have hmax := cursor_appendHexWithPadding f number width
    have htext : (f.appendHex number).cursor ≤ f.end_ := appendHex_le hcursor
    constructor
    · intro hinside
      have hle : (f.appendHexWithPadding number width).cursor ≤ size := hinside.cursor
      unfold Fits
      omega
    · intro hfits
      unfold Fits at hfits
      have hle : (f.appendHexWithPadding number width).cursor ≤ size := by omega
      exact h.extend appendHexWithPadding_extends hle

/-- The width of a pointer fits behind the indentation of a frame. -/
theorem dumpStackFrameInfo_fits (content : Nat → Char) {framePrefix symbol : Text} (h : framePrefix.length ≤ 1004)
    (pc : UInt64) :
    Each MinimalFormatter.append (Fits 1024) (.create content 1024) (dumpStackFrameInfo framePrefix symbol pc) := by
  have hprefix := appendString_cursor_le (.create content 1024) framePrefix
  have hat := appendString_cursor_le ((MinimalFormatter.create content 1024).appendString framePrefix) ['@', ' ']
  refine ⟨trivial, trivial, ?_, trivial, trivial, trivial, trivial⟩
  rw [MinimalFormatter.create] at hprefix
  rw [List.length_cons, List.length_cons, List.length_nil] at hat
  unfold Fits MinimalFormatter.append
  dsimp only [MinimalFormatter.create] at hprefix hat ⊢
  omega

theorem append_end (a : Append) : (f.append a).end_ = f.end_ := by
  cases a with
  | string str => rfl
  | uint64 number radix => rfl
  | hexWithPadding number width => exact appendHexWithPadding_extends.end_

end

/-- The formatter stays in its buffer through exactly the calls whose widths do. -/
theorem always_inside_iff (content : Nat → Char) (size : Nat) (calls : List Append) :
    Always MinimalFormatter.append (Inside size) (.create content size) calls ↔
      Each MinimalFormatter.append (Fits size) (.create content size) calls := by
  refine always_iff_each (N := fun f => f.end_ = size) (fun f a hend => (append_end a).trans hend) ?_ rfl ?_
  · exact fun f a hend hinside => inside_append_iff hend hinside a
  · exact ⟨Nat.zero_le size, Nat.zero_le size, by simp [MinimalFormatter.create]⟩

/-- A zero that is padded to the width of a pointer leaves a buffer of four bytes. -/
theorem not_always_inside : ¬ ∀ (content : Nat → Char) (size : Nat) (calls : List Append),
    Always MinimalFormatter.append (Inside size) (.create content size) calls := by
  intro h
  obtain ⟨-, hinside⟩ := h (fun _ => ' ') 4 [.hexWithPadding 0 18]
  have hle := hinside.cursor
  exact absurd hle (by decide)

end Glog.Signalhandler
