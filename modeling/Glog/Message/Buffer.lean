import Glog.LogFile.Write

/-! # The text of a message

`LogMessageData` keeps the text of a message in the array `message_text_`, into which the stream of the message
writes through a `LogStreamBuf`. The array has `kMaxLogMessageLen + 1` places. A text here is a function of all
places that a `size_t` can name: those behind the array are the memory around it, and the last one is the byte
before the array. -/

namespace Glog.LogMessage
open LogFile

def kMaxLogMessageLen : Nat := 30000

/-- The difference of two values of `size_t`. -/
def sizeSub (a b : Nat) : Nat := (a + 18446744073709551616 - b) % 18446744073709551616

theorem sizeSub_of_le {a b : Nat} (h : b ≤ a) (ha : a < 18446744073709551616) : sizeSub a b = a - b := by
  rw [sizeSub, Nat.add_comm, Nat.add_sub_assoc h, Nat.add_mod_left, Nat.mod_eq_of_lt (by omega)]

/-! ### The stream -/

/-- Two bytes are left at the end of the buffer, for a `\n` and a `\0`. -/
def capacity : Nat := kMaxLogMessageLen - 2

theorem capacity_eq : capacity = 29998 := rfl

def setPlace (i : Nat) (c : Char) (text : Nat → Char) : Nat → Char := fun j => if j = i then c else text j

theorem setPlace_ne {i j : Nat} {c : Char} {text : Nat → Char} (h : j ≠ i) : setPlace i c text j = text j := if_neg h

theorem setPlace_self {i : Nat} {c : Char} {text : Nat → Char} : setPlace i c text i = c := if_pos rfl

structure LogStreamBuf where
  text : Nat → Char
  pcount : Nat
  room : pcount ≤ capacity

namespace LogStreamBuf

/-- This effectively ignores overflow. -/
def sputc (b : LogStreamBuf) (c : Char) : LogStreamBuf :=
  if h : b.pcount < capacity then ⟨setPlace b.pcount c b.text, b.pcount + 1, h⟩ else b

def insert (l : Text) (b : LogStreamBuf) : LogStreamBuf := l.foldl sputc b

end LogStreamBuf

/-- A part of a text. -/
def slice (text : Nat → Char) (start length : Nat) : Text := (List.range length).map fun k => text (start + k)

/-- A text up to its end. -/
def cString (l : Text) : Text := l.takeWhile (· != '\x00')

/-- What the stream has written. -/
def LogStreamBuf.stored (b : LogStreamBuf) : Text := slice b.text 0 b.pcount

section
variable {text text' : Nat → Char} {start length : Nat} {b : LogStreamBuf}

theorem length_slice : (slice text start length).length = length := by rw [slice, List.length_map, List.length_range]

theorem slice_congr (h : ∀ i, start ≤ i → i < start + length → text i = text' i) :
    slice text start length = slice text' start length := by
  refine List.map_congr_left fun k hk => h _ (Nat.le_add_right _ _) ?_
  have hlt := List.mem_range.mp hk
  omega

theorem slice_succ : slice text start (length + 1) = slice text start length ++ [text (start + length)] := by
  rw [slice, List.range_succ, List.map_append]
  rfl

theorem drop_slice (k : Nat) : (slice text start length).drop k = slice text (start + k) (length - k) := by
  apply List.ext_getElem
  · rw [List.length_drop, length_slice, length_slice]
  · intro i hi hi'
    simp only [slice, List.getElem_drop, List.getElem_map, List.getElem_range, Nat.add_assoc]

theorem take_append_take {α : Type} (n : Nat) (l l' : List α) : (l.take n ++ l').take n = (l ++ l').take n := by
  rw [List.take_append, List.take_append, List.take_take, Nat.min_self, List.length_take]
  congr 2
  omega

theorem stored_sputc (c : Char) : (b.sputc c).stored = (b.stored ++ [c]).take capacity := by
  have hlength : b.stored.length = b.pcount := length_slice
  unfold LogStreamBuf.sputc
  split
  · rename_i hroom
    have hsame : slice (setPlace b.pcount c b.text) 0 b.pcount = b.stored :=
      slice_congr fun i _ hi => setPlace_ne (by omega)
    rw [List.take_of_length_le (by rw [List.length_append, hlength]; exact hroom), LogStreamBuf.stored]
    dsimp only
    rw [slice_succ, hsame, Nat.zero_add, setPlace_self]
  · rename_i hfull
    have hcapacity : b.stored.length = capacity := hlength.trans (Nat.le_antisymm b.room (Nat.not_lt.mp hfull))
    rw [← hcapacity, List.take_left]

/-- What is inserted is cut off at the capacity. -/
theorem stored_insert (l : Text) : ∀ b : LogStreamBuf, (b.insert l).stored = (b.stored ++ l).take capacity := by
  induction l with
  | nil =>
    intro b
    rw [List.append_nil, List.take_of_length_le (by rw [LogStreamBuf.stored, length_slice]; exact b.room)]
    rfl
  | cons c l ih =>
    intro b
    have hstep : b.insert (c :: l) = (b.sputc c).insert l := rfl
    rw [hstep, ih, stored_sputc, take_append_take, List.append_assoc, List.singleton_append]

theorem pcount_eq (b : LogStreamBuf) : b.pcount = b.stored.length := length_slice.symm

/-- Behind the capacity nothing is written. -/
theorem text_insert {i : Nat} (hi : capacity ≤ i) (l : Text) : ∀ b : LogStreamBuf, (b.insert l).text i = b.text i := by
  induction l with
  | nil => exact fun _ => rfl
  | cons c l ih =>
    intro b
    refine (ih (b.sputc c)).trans ?_
    unfold LogStreamBuf.sputc
    split
    · exact setPlace_ne (by omega)
    · rfl

end

/-! ### The prefix -/

structure LogMessageTime where
  year : Int
  month : Int
  day : Int
  hour : Int
  min : Int
  sec : Int
  usec : Int

/-- What the prefix tells about a message. -/
structure LogMessageInfo where
  severity : Severity
  filename : Text
  lineNumber : Int
  threadId : Nat
  time : LogMessageTime

def kNoLogPrefix : Int := -1

structure PrefixFlags where
  logPrefix : Bool
  logYearInPrefix : Bool
  /-- What `custom_prefix_callback` writes. -/
  customPrefixCallback : Option (LogMessageInfo → Text)
  logBacktraceAt : Text
  /-- `DumpStackTraceToString`. -/
  stacktrace : Text

def padLeft (width : Nat) (text : Text) : Text := List.replicate (width - text.length) ' ' ++ text

/-- `[IWEF]yyyymmdd hh:mm:ss.uuuuuu threadid file:line] `. -/
def defaultPrefix (logYearInPrefix : Bool) (info : LogMessageInfo) : Text :=
  info.severity.name.take 1 ++ (if logYearInPrefix then setw 4 (decimal (1900 + info.time.year)) else []) ++
    setw 2 (decimal (1 + info.time.month)) ++ setw 2 (decimal info.time.day) ++ ' ' :: setw 2 (decimal info.time.hour) ++
    ':' :: setw 2 (decimal info.time.min) ++ ':' :: setw 2 (decimal info.time.sec) ++ '.' ::
      setw 6 (decimal info.time.usec) ++
    ' ' :: padLeft 5 (decimal info.threadId) ++ ' ' :: info.filename ++ ':' :: decimal info.lineNumber ++ "] ".toList

def messagePrefix (flags : PrefixFlags) (info : LogMessageInfo) : Text :=
  if flags.logPrefix ∧ info.lineNumber ≠ kNoLogPrefix then
    match flags.customPrefixCallback with
    | none => defaultPrefix flags.logYearInPrefix info
    | some callback => callback info ++ [' ']
  else []

/-- The stack trace that is inserted at the place `log_backtrace_at`. -/
def backtrace (flags : PrefixFlags) (info : LogMessageInfo) : Text :=
  if flags.logBacktraceAt ≠ [] ∧ flags.logBacktraceAt = (info.filename ++ ':' :: decimal info.lineNumber).take 127 then
    " (stacktrace:\n".toList ++ flags.stacktrace ++ ") ".toList
  else []

end Glog.LogMessage
