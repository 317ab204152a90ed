import Glog.Signalhandler.Padding
import Glog.Signalhandler.Crash
import Glog.Text.Digits

/-! # The report of a crash

What `DumpTimeInfo`, `DumpSignalInfo` and `DumpStackFrameInfo` hand to `g_failure_writer`. Their buffers have not been
initialized, and the symbol of a frame may be longer than what is left of its buffer. A padded number is moved whole, as
`std::copy` does with bytes. -/

namespace Glog.Signalhandler
open LogFile Memory Run Digits Lines Signals

/-- A number as it is padded. -/
def paddedText (number : UInt64) (width : Int) : Text :=
  List.replicate (width - (hexText number).length).toNat ' ' ++ hexText number

/-- A call, where the text of a padded number is moved whole. -/
def MinimalFormatter.appendMoved (f : MinimalFormatter) : Append → MinimalFormatter
  | .hexWithPadding number width => f.appendHexMoved number width
  | .string str => f.append (.string str)
  | .uint64 number radix => f.append (.uint64 number radix)

/-- What a call appends if there is room for it. -/
def Append.text : Append → Text
  | .string str => str
  | .uint64 number radix => Nat.toDigits radix number.toNat
  | .hexWithPadding number width => paddedText number width

/-- A string may be cut off at the end of the buffer, a number has room. -/
def Whole (f : MinimalFormatter) : Append → Prop
  | .string str => '\x00' ∉ str
  | .uint64 number radix => (1 < radix ∧ radix ≤ 16) ∧ f.cursor + (Nat.toDigits radix number.toNat).length ≤ f.end_
  | .hexWithPadding number width => f.cursor + (paddedText number width).length ≤ f.end_

/-- What `g_failure_writer` is called with. -/
def written (content : Nat → Char) (size : Nat) (calls : List Append) : Text :=
  let formatter := calls.foldl MinimalFormatter.appendMoved (.create content size)
  formatter.memory.slice 0 formatter.numBytesWritten

/-- The conversion of an `int`. -/
def toUint64 (n : Int32) : UInt64 := n.toInt64.toUInt64

def dumpTimeInfo (timeInSec : Int64) : List Append :=
  [.string "*** Aborted at ".toList, .uint64 timeInSec.toUInt64 10, .string " (unix time)".toList,
    .string " try \"date -d @".toList, .uint64 timeInSec.toUInt64 10, .string "\" if you are using GNU date ***\n".toList]

/-- With the numbers that Linux has for them. -/
def kFailureSignals : List (Int32 × Text) :=
  [(11, "SIGSEGV".toList), (4, "SIGILL".toList), (8, "SIGFPE".toList), (6, "SIGABRT".toList), (7, "SIGBUS".toList),
    (15, "SIGTERM".toList)]

/-- The loop does not stop at the signal that it looks for. -/
def signalName (signalNumber : Int32) : Option Text :=
  kFailureSignals.foldl (fun name kFailureSignal =>
    if signalNumber = kFailureSignal.1 then some kFailureSignal.2 else name) none

/-- What is known about the signal, where it is handled and where it comes from. -/
structure SignalInfo where
  signalNumber : Int32
  siAddr : UInt64
  pid : Int32
  id : UInt64
  siPid : Int32
  deriving DecidableEq

/-- Use the signal number if the name is unknown. -/
def appendSignal (signalNumber : Int32) : List Append :=
  match signalName signalNumber with
  | some name => [.string name]
  | none => [.string "Signal ".toList, .uint64 (toUint64 signalNumber) 10]

def dumpSignalInfo (s : SignalInfo) : List Append :=
  [.string "*** ".toList] ++ appendSignal s.signalNumber ++
    [.string " (@0x".toList, .uint64 s.siAddr 16, .string ")".toList, .string " received by PID ".toList,
      .uint64 (toUint64 s.pid) 10, .string " (TID 0x".toList, .uint64 s.id 16, .string ") ".toList,
      .string "from PID ".toList, .uint64 (toUint64 s.siPid) 10, .string "; ".toList, .string "stack trace: ***\n".toList]

/-- What `Symbolize` leaves in front of the terminator, in a buffer of 1024 bytes. -/
structure Symbolized where
  text : Text
  nul : '\x00' ∉ text
  length : text.length < 1024

/-- A frame with what is found for the address before its pc, and with what is in the buffer of `DumpStackFrameInfo`. -/
structure StackFrame where
  pc : UInt64
  symbolized : Option Symbolized
  buf : Nat → Char

def StackFrame.symbol (frame : StackFrame) : Text :=
  match frame.symbolized with
  | some symbolized => symbolized.text
  | none => "(unknown)".toList

def StackFrame.dump (framePrefix : Text) (frame : StackFrame) : Text :=
  written frame.buf 1024 (dumpStackFrameInfo framePrefix frame.symbol frame.pc)

/-- Where a thread is when it makes the report, with what is in the buffers of `DumpTimeInfo` and `DumpSignalInfo`. -/
structure Scene where
  timeInSec : Int64
  timeBuf : Nat → Char
  pc : StackFrame
  signalInfo : SignalInfo
  signalBuf : Nat → Char
  stack : List StackFrame

/-- What `FailureSignalHandler` writes. -/
def Scene.dump (scene : Scene) : List Text :=
  [written scene.timeBuf 256 (dumpTimeInfo scene.timeInSec), scene.pc.dump "PC: ".toList,
    written scene.signalBuf 256 (dumpSignalInfo scene.signalInfo)] ++ scene.stack.map (StackFrame.dump "    ".toList)

section
variable {f : MinimalFormatter} {str : Text} {a : Append} {number : UInt64} {width : Int} {calls : List Append} {size : Nat}

/-! ### The calls -/

theorem appendStringLoop_cut (cursor end_ : Nat) (hnul : '\x00' ∉ str) : ∀ {i : Nat} {m : Cells Char},
    MinimalFormatter.appendStringLoop cursor end_ str i m =
      (i + (str.take (end_ - (cursor + i))).length, m.store (cursor + i) (str.take (end_ - (cursor + i)))) := by
  induction str with
  | nil =>
    intro i m
    simp [MinimalFormatter.appendStringLoop, Cells.store]
  | cons c str ih =>
    intro i m
    have hc : c ≠ '\x00' := fun h => hnul (h ▸ List.mem_cons_self)
    rw [MinimalFormatter.appendStringLoop]
    by_cases hroom : cursor + i < end_
    · obtain ⟨left, hleft⟩ : ∃ left, end_ - (cursor + i) = left + 1 := ⟨end_ - (cursor + i) - 1, by omega⟩
      have hrest : end_ - (cursor + (i + 1)) = left := by omega
      rw [if_pos ⟨hc, hroom⟩, ih fun h => hnul (List.mem_cons_of_mem c h), hleft, hrest, List.take_succ_cons,
        List.length_cons, Cells.store]
      simp [Nat.add_assoc, Nat.add_comm, Nat.add_left_comm]
    · have hfull : end_ - (cursor + i) = 0 := by omega
      rw [if_neg fun h => hroom h.2, hfull]
      simp [Cells.store]

theorem appendString_cut (f : MinimalFormatter) (hnul : '\x00' ∉ str) :
    Appended (str.take (f.end_ - f.cursor)) f (f.appendString str) := by
  have hloop := appendStringLoop_cut f.cursor f.end_ hnul (i := 0) (m := f.memory)
  unfold MinimalFormatter.appendString
  rw [hloop, Nat.zero_add, Nat.add_zero]
  exact ⟨rfl, slice_store f.cursor⟩

theorem length_paddedText : (paddedText number width).length =
    (width - (hexText number).length).toNat + (hexText number).length := by
  simp [paddedText]

theorem appendHexMoved_appended (f : MinimalFormatter) (hroom : f.cursor + (paddedText number width).length ≤ f.end_) :
    Appended (paddedText number width) f (f.appendHexMoved number width) := by
  rw [length_paddedText] at hroom
  obtain ⟨hcursor, happended, -⟩ := appendHexMoved_padded f number width (by omega)
  rw [hcursor, Nat.add_sub_cancel_left] at happended
  refine ⟨by rw [length_paddedText]; exact hcursor, ?_⟩
  rw [length_paddedText]
  exact happended

/-- A call appends its text, cut off at the end of the buffer. -/
theorem append_appended (hwhole : Whole f a) : Appended (a.text.take (f.end_ - f.cursor)) f (f.appendMoved a) := by
  cases a with
  | string str => exact appendString_cut f hwhole
  | uint64 number radix =>
    obtain ⟨⟨hradix, hradix'⟩, hroom⟩ := hwhole
    have hle : (Append.uint64 number radix).text.length ≤ f.end_ - f.cursor := Nat.le_sub_of_add_le' hroom
    rw [List.take_of_length_le hle]
    exact appendUint64_appended hradix hradix' hroom
  | hexWithPadding number width =>
    have hle : (Append.hexWithPadding number width).text.length ≤ f.end_ - f.cursor := Nat.le_sub_of_add_le' hwhole
    rw [List.take_of_length_le hle]
    exact appendHexMoved_appended f hwhole

theorem append_extends : Extends f (f.appendMoved a) := by
  cases a with
  | string str => exact appendString_extends
  | uint64 number radix => exact appendUint64_extends
  | hexWithPadding number width => exact appendHexMoved_extends

theorem foldl_extends (f : MinimalFormatter) (calls : List Append) :
    Extends f (calls.foldl MinimalFormatter.appendMoved f) := by
  induction calls generalizing f with
  | nil => exact ⟨rfl, Nat.le_refl _, Writes.refl ..⟩
  | cons a calls ih => exact append_extends.trans (ih (f.appendMoved a))

/-- So do a number of calls, one after the other. -/
theorem foldl_appended (h : Each MinimalFormatter.appendMoved Whole f calls) :
    Appended ((calls.flatMap Append.text).take (f.end_ - f.cursor)) f (calls.foldl MinimalFormatter.appendMoved f) := by
  induction calls generalizing f with
  | nil =>
    refine ⟨?_, ?_⟩
    · simp
    · simp [Cells.slice]
  | cons a calls ih =>
    obtain ⟨hwhole, hrest⟩ := h
    have hfirst := append_appended hwhole
    have hleft : (f.appendMoved a).end_ - (f.appendMoved a).cursor = f.end_ - f.cursor - a.text.length := by
      rw [append_extends.end_, hfirst.cursor, List.length_take]
      omega
    have hboth := hfirst.trans (ih hrest) (foldl_extends _ calls)
    rw [hleft, ← List.take_append] at hboth
    exact hboth

theorem written_eq (content : Nat → Char) (h : Each MinimalFormatter.appendMoved Whole (.create content size) calls) :
    written content size calls = (calls.flatMap Append.text).take size := by
  have happended := foldl_appended h
  have hslice := happended.slice
  have hcursor := happended.cursor
  have hsize : (MinimalFormatter.create content size).end_ - (MinimalFormatter.create content size).cursor = size :=
    Nat.sub_zero size
  have hstart : (MinimalFormatter.create content size).cursor = 0 := rfl
  rw [hsize] at hslice hcursor
  unfold written MinimalFormatter.numBytesWritten
  dsimp only
  rw [hcursor, hstart, Nat.zero_add]
  exact hslice

/-- A string without a terminator in it, or a number in radix 10 or 16. -/
def clean : Append → Bool
  | .string str => !str.contains '\x00'
  | .uint64 _ radix => decide (10 ≤ radix) && decide (radix ≤ 16)
  | .hexWithPadding _ _ => true

/-- No call appends more than this. -/
def bound : Append → Nat
  | .string str => str.length
  | .uint64 _ _ => 20
  | .hexWithPadding _ width => max width.toNat 18

theorem each_whole (hclean : calls.all clean = true) (hroom : f.cursor + (calls.flatMap Append.text).length ≤ f.end_) :
    Each MinimalFormatter.appendMoved Whole f calls := by
  induction calls generalizing f with
  | nil => trivial
  | cons a calls ih =>
    rw [List.flatMap_cons, List.length_append] at hroom
    rw [List.all_cons, Bool.and_eq_true] at hclean
    have hwhole : Whole f a := by
      have ha := hclean.1
      cases a with
      | string str => simpa [clean, Whole] using ha
      | uint64 number radix =>
        obtain ⟨hge, hle⟩ : 10 ≤ radix ∧ radix ≤ 16 := by simpa [clean] using ha
        exact ⟨⟨Nat.lt_of_lt_of_le (by decide) hge, hle⟩, Nat.le_trans (Nat.add_le_add_left (Nat.le_add_right _ _) _) hroom⟩
      | hexWithPadding number width => exact Nat.le_trans (Nat.add_le_add_left (Nat.le_add_right _ _) _) hroom
    refine ⟨hwhole, ih hclean.2 ?_⟩
    have hcursor := (append_appended hwhole).cursor
    rw [List.length_take] at hcursor
    rw [append_extends.end_]
    omega

theorem length_toDigits_le {radix : Nat} (hradix : 10 ≤ radix) : (Nat.toDigits radix number.toNat).length ≤ 20 := by
  rw [Nat.length_toDigits_le_iff (by omega) (by decide)]
  calc
    number.toNat < 2 ^ 64 := number.toNat_lt
    _ ≤ 10 ^ 20 := by decide
    _ ≤ radix ^ 20 := Nat.pow_le_pow_left hradix 20

theorem length_hexText_le (number : UInt64) : (hexText number).length ≤ 18 := by
  rw [length_hexText]
  have hle : (Nat.toDigits 16 number.toNat).length ≤ 16 := by
    rw [Nat.length_toDigits_le_iff (by decide) (by decide)]
    exact Nat.lt_of_lt_of_le number.toNat_lt (by decide)
  omega

theorem length_text_le (hclean : clean a = true) : a.text.length ≤ bound a := by
  cases a with
  | string str => exact Nat.le_refl _
  | uint64 number radix =>
    obtain ⟨hge, -⟩ : 10 ≤ radix ∧ radix ≤ 16 := by simpa [clean] using hclean
    exact length_toDigits_le hge
  | hexWithPadding number width =>
    have hle := length_hexText_le number
    have hlength : (Append.hexWithPadding number width).text.length =
        (width - (hexText number).length).toNat + (hexText number).length := length_paddedText
    have hbound : bound (.hexWithPadding number width) = max width.toNat 18 := rfl
    rw [hlength, hbound]
    omega

theorem length_texts_le (hclean : calls.all clean = true) : (calls.flatMap Append.text).length ≤ (calls.map bound).sum := by
  induction calls with
  | nil => exact Nat.le_refl 0
  | cons a calls ih =>
    rw [List.all_cons, Bool.and_eq_true] at hclean
    rw [List.flatMap_cons, List.length_append, List.map_cons, List.sum_cons]
    exact Nat.add_le_add (length_text_le hclean.1) (ih hclean.2)

/-- There is room for all of the calls. -/
theorem written_eq_of_bound (content : Nat → Char) (hclean : calls.all clean = true)
    (hbound : (calls.map bound).sum ≤ size) :
    written content size calls = calls.flatMap Append.text := by
  have hroom : (calls.flatMap Append.text).length ≤ size := Nat.le_trans (length_texts_le hclean) hbound
  rw [written_eq content (each_whole hclean (Nat.le_trans (Nat.le_of_eq (Nat.zero_add _)) hroom)),
    List.take_of_length_le hroom]

/-! ### Time and signal -/

/-- The texts that follow the name of the signal. -/
def behindName (s : SignalInfo) : Text :=
  " (@0x".toList ++ Nat.toDigits 16 s.siAddr.toNat ++ ")".toList ++ " received by PID ".toList ++
    Nat.toDigits 10 (toUint64 s.pid).toNat ++
    " (TID 0x".toList ++ Nat.toDigits 16 s.id.toNat ++ ") ".toList ++ "from PID ".toList ++
      Nat.toDigits 10 (toUint64 s.siPid).toNat ++
    "; ".toList ++ "stack trace: ***\n".toList

def nameText (signalNumber : Int32) : Text :=
  match signalName signalNumber with
  | some name => name
  | none => "Signal ".toList ++ Nat.toDigits 10 (toUint64 signalNumber).toNat

/-- The line about the signal. -/
def signalLine (s : SignalInfo) : Text := "*** ".toList ++ nameText s.signalNumber ++ behindName s

/-- The line about the time. -/
def timeLine (timeInSec : Int64) : Text :=
  "*** Aborted at ".toList ++ Nat.toDigits 10 timeInSec.toUInt64.toNat ++ " (unix time)".toList ++
    " try \"date -d @".toList ++
    Nat.toDigits 10 timeInSec.toUInt64.toNat ++ "\" if you are using GNU date ***\n".toList

theorem foldl_signalName {name : Text} {n : Int32} (l : List (Int32 × Text)) : ∀ {found : Option Text},
    l.foldl (fun name kFailureSignal => if n = kFailureSignal.1 then some kFailureSignal.2 else name) found = some name →
      found = some name ∨ (n, name) ∈ l := by
  induction l with
  | nil => exact Or.inl
  | cons k l ih =>
    intro found h
    rcases ih h with hfound | hmem
    · dsimp only at hfound
      split at hfound
      · rename_i hk
        obtain rfl := Option.some.inj hfound
        exact Or.inr (hk ▸ List.mem_cons_self)
      · exact Or.inl hfound
    · exact Or.inr (List.mem_cons_of_mem k hmem)

theorem signalName_mem {name : Text} {n : Int32} (h : signalName n = some name) : (n, name) ∈ kFailureSignals := by
  rcases foldl_signalName kFailureSignals h with hnone | hmem
  · cases hnone
  · exact hmem

theorem text_appendSignal (n : Int32) : (appendSignal n).flatMap Append.text = nameText n := by
  unfold appendSignal nameText
  cases signalName n with
  | none => simp only [List.flatMap_cons, List.flatMap_nil, Append.text, List.append_nil]
  | some name => simp only [List.flatMap_cons, List.flatMap_nil, Append.text, List.append_nil]

theorem appendSignal_bound (n : Int32) : (appendSignal n).all clean = true ∧ ((appendSignal n).map bound).sum ≤ 27 := by
  have hnames : ∀ k ∈ kFailureSignals, clean (.string k.2) = true ∧ k.2.length ≤ 27 := by decide
  unfold appendSignal
  cases hname : signalName n with
  | none => exact ⟨rfl, Nat.le_refl _⟩
  | some name =>
    obtain ⟨hclean, hlength⟩ := hnames _ (signalName_mem hname)
    exact ⟨by simpa using hclean, by simpa [bound] using hlength⟩

theorem text_dumpSignalInfo (s : SignalInfo) : (dumpSignalInfo s).flatMap Append.text = signalLine s := by
  unfold dumpSignalInfo signalLine behindName
  rw [List.flatMap_append, List.flatMap_append, text_appendSignal]
  simp only [List.flatMap_cons, List.flatMap_nil, Append.text, List.append_assoc, List.append_nil]

theorem text_dumpTimeInfo (timeInSec : Int64) : (dumpTimeInfo timeInSec).flatMap Append.text = timeLine timeInSec := by
  unfold dumpTimeInfo timeLine
  simp only [List.flatMap_cons, List.flatMap_nil, Append.text, List.append_assoc, List.append_nil]

theorem written_dumpTimeInfo (content : Nat → Char) (timeInSec : Int64) :
    written content 256 (dumpTimeInfo timeInSec) = timeLine timeInSec :=
  (written_eq_of_bound content rfl (Nat.le_of_ble_eq_true rfl)).trans (text_dumpTimeInfo timeInSec)

theorem written_dumpSignalInfo (content : Nat → Char) (s : SignalInfo) :
    written content 256 (dumpSignalInfo s) = signalLine s := by
  obtain ⟨hclean, hbound⟩ := appendSignal_bound s.signalNumber
  refine (written_eq_of_bound content ?_ ?_).trans (text_dumpSignalInfo s)
  · unfold dumpSignalInfo
    rw [List.all_append, List.all_append, hclean]
    rfl
  · unfold dumpSignalInfo
    rw [List.map_append, List.map_append, List.sum_append, List.sum_append]
    exact Nat.le_trans (Nat.add_le_add_right (Nat.add_le_add_left hbound _) _) (Nat.le_of_ble_eq_true rfl)

/-! ### Reading the line about the signal -/

theorem not_mem_toDigits {b n : Nat} {c : Char} (hb : 1 < b) (hb' : b ≤ 16) (hc : ∀ d < 16, c ≠ Nat.digitChar d) :
    c ∉ Nat.toDigits b n := by
  intro h
  obtain ⟨d, hd, rfl⟩ := mem_toDigits hb h
  exact hc d (Nat.lt_of_lt_of_le hd hb') rfl

theorem toUint64_inj {m n : Int32} (h : (toUint64 m).toNat = (toUint64 n).toNat) : m = n := by
  have hsame : m.toInt64 = n.toInt64 := congrArg Int64.ofUInt64 (UInt64.toNat_inj.mp h)
  rw [← Int32.toInt_inj, ← Int32.toInt_toInt64, hsame, Int32.toInt_toInt64]

/-- The name of a signal has neither a space nor a parenthesis. -/
theorem name_mem {k : Int32 × Text} (h : k ∈ kFailureSignals) : ' ' ∉ k.2 ∧ '(' ∉ k.2 := by
  have hall : ∀ k ∈ kFailureSignals, ' ' ∉ k.2 ∧ '(' ∉ k.2 := by decide
  exact hall k h

theorem nameText_inj {m n : Int32} (h : nameText m = nameText n) : m = n := by
  have hunique : ∀ k ∈ kFailureSignals, ∀ l ∈ kFailureSignals, k.2 = l.2 → k.1 = l.1 := by decide
  have hspace : ∀ digits : Text, ' ' ∈ "Signal ".toList ++ digits := fun digits => List.mem_append_left digits (by decide)
  unfold nameText at h
  cases hm : signalName m with
  | some name =>
    have hmem := signalName_mem hm
    cases hn : signalName n with
    | some name' =>
      rw [hm, hn] at h
      exact hunique _ hmem _ (signalName_mem hn) h
    | none =>
      rw [hm, hn] at h
      dsimp only at h
      exact absurd (h ▸ hspace _) (name_mem hmem).1
  | none =>
    cases hn : signalName n with
    | some name =>
      rw [hm, hn] at h
      dsimp only at h
      exact absurd (h ▸ hspace _) (name_mem (signalName_mem hn)).1
    | none =>
      rw [hm, hn] at h
      exact toUint64_inj (toDigits_inj (by decide) (by decide) (List.append_cancel_left h))

theorem paren_not_mem_nameText (n : Int32) : '(' ∉ nameText n ++ [' '] := by
  unfold nameText
  cases hn : signalName n with
  | some name =>
    have hname := (name_mem (signalName_mem hn)).2
    simpa using hname
  | none =>
    have hdigits := not_mem_toDigits (b := 10) (n := (toUint64 n).toNat) (c := '(') (by decide) (by decide) (by decide)
    simpa using hdigits

theorem signalLine_inj {s s' : SignalInfo} (h : signalLine s = signalLine s') : s = s' := by
  have hparts : ∀ s : SignalInfo, signalLine s = "*** ".toList ++
      ((nameText s.signalNumber ++ [' ']) ++ '(' :: ("@0x".toList ++
      (Nat.toDigits 16 s.siAddr.toNat ++ ')' ::
        (" received by PID ".toList ++ (Nat.toDigits 10 (toUint64 s.pid).toNat ++ ' ' ::
        ("(TID 0x".toList ++ (Nat.toDigits 16 s.id.toNat ++ ')' :: (" from PID ".toList ++
          (Nat.toDigits 10 (toUint64 s.siPid).toNat ++ ';' :: " stack trace: ***\n".toList))))))))) := by
    intro s
    unfold signalLine behindName
    simp only [-String.reduceToList, List.append_assoc]
    rfl
  have hhex : ∀ k, ')' ∉ Nat.toDigits 16 k := fun k => not_mem_toDigits (by decide) (by decide) (by decide)
  have hspace : ∀ k, ' ' ∉ Nat.toDigits 10 k := fun k => not_mem_toDigits (by decide) (by decide) (by decide)
  have hsemicolon : ∀ k, ';' ∉ Nat.toDigits 10 k := fun k => not_mem_toDigits (by decide) (by decide) (by decide)
  rw [hparts, hparts] at h
  obtain ⟨hname, h⟩ := line_unique (List.append_cancel_left h) (paren_not_mem_nameText _) (paren_not_mem_nameText _)
  obtain ⟨haddr, h⟩ := number_unique (by decide) (by decide) hhex (List.append_cancel_left h)
  obtain ⟨hpid, h⟩ := number_unique (by decide) (by decide) hspace (List.append_cancel_left h)
  obtain ⟨hid, h⟩ := number_unique (by decide) (by decide) hhex (List.append_cancel_left h)
  obtain ⟨hsender, -⟩ := number_unique (by decide) (by decide) hsemicolon (List.append_cancel_left h)
  cases s
  cases s'
  rw [SignalInfo.mk.injEq]
  exact ⟨nameText_inj (List.append_cancel_right hname), UInt64.toNat_inj.mp haddr, toUint64_inj hpid,
    UInt64.toNat_inj.mp hid, toUint64_inj hsender⟩

/-! ### The report -/

/-- The line about a frame, which is cut off where its buffer ends. -/
def frameLine (framePrefix : Text) (frame : StackFrame) : Text :=
  (framePrefix ++ ['@', ' '] ++ paddedText frame.pc 18 ++ [' '] ++ frame.symbol ++ ['\n']).take 1024

theorem nul_not_mem_symbol (frame : StackFrame) : '\x00' ∉ frame.symbol := by
  unfold StackFrame.symbol
  cases frame.symbolized with
  | none => decide
  | some symbolized => exact symbolized.nul

theorem dump_frame {framePrefix : Text} (hnul : '\x00' ∉ framePrefix) (hlength : framePrefix.length ≤ 1004)
    (frame : StackFrame) :
    frame.dump framePrefix = frameLine framePrefix frame := by
  have hpad : (paddedText frame.pc 18).length = 18 := by
    have hle := length_hexText_le frame.pc
    rw [length_paddedText]
    omega
  have hprefix := appendString_cut (.create frame.buf 1024) hnul
  have hat := appendString_cut ((MinimalFormatter.create frame.buf 1024).appendString framePrefix)
    (show '\x00' ∉ ['@', ' '] by decide)
  have hcursor := hprefix.cursor
  have hcursor' := hat.cursor
  rw [List.length_take] at hcursor hcursor'
  rw [List.length_cons, List.length_cons, List.length_nil] at hcursor'
  have hstart : (MinimalFormatter.create frame.buf 1024).cursor = 0 := rfl
  have hroom : ((((MinimalFormatter.create frame.buf 1024).appendString framePrefix).appendString ['@', ' ']).cursor +
      (paddedText frame.pc 18).length ≤ 1024) := by omega
  have heach : Each MinimalFormatter.appendMoved Whole (.create frame.buf 1024)
      (dumpStackFrameInfo framePrefix frame.symbol frame.pc) :=
    ⟨hnul, show '\x00' ∉ ['@', ' '] by decide, hroom, show '\x00' ∉ [' '] by decide, nul_not_mem_symbol frame,
      show '\x00' ∉ ['\n'] by decide, trivial⟩
  have htext : (dumpStackFrameInfo framePrefix frame.symbol frame.pc).flatMap Append.text =
      framePrefix ++ ['@', ' '] ++ paddedText frame.pc 18 ++ [' '] ++ frame.symbol ++ ['\n'] := by
    unfold dumpStackFrameInfo
    simp only [List.flatMap_cons, List.flatMap_nil, Append.text, List.append_assoc, List.append_nil]
  rw [StackFrame.dump, written_eq _ heach, htext]
  rfl

/-- The report, whatever is in the buffers. -/
theorem dump_eq (scene : Scene) : scene.dump =
    [timeLine scene.timeInSec, frameLine "PC: ".toList scene.pc, signalLine scene.signalInfo] ++
      scene.stack.map (frameLine "    ".toList) := by
  have hstack : scene.stack.map (StackFrame.dump "    ".toList) = scene.stack.map (frameLine "    ".toList) :=
    List.map_congr_left fun frame _ => dump_frame (by decide) (by decide) frame
  unfold Scene.dump
  rw [written_dumpTimeInfo, written_dumpSignalInfo, dump_frame (by decide) (by decide), hstack]

/-- The line about the signal tells everything that has been put into it, whatever has been in the buffers. -/
theorem signal_told_iff (buf buf' : Nat → Char) (s s' : SignalInfo) :
    written buf 256 (dumpSignalInfo s) = written buf' 256 (dumpSignalInfo s') ↔ s = s' := by
  rw [written_dumpSignalInfo, written_dumpSignalInfo]
  constructor
  · exact signalLine_inj
  · intro h
    rw [h]

end

section
variable {Thread Signal : Type} [DecidableEq Thread] [DecidableEq Signal] {mask : Thread → Signal → Bool}

/-- When the process ends and the thread that makes the report has been spared, these lines have been written, one after the
    other, and nothing else. -/
theorem crash_text (scene : Thread → Signal → Scene) {s : State Thread Signal (Crash Thread) Point}
    (h : Reaches (step (failureSignalHandler fun t sig => (scene t sig).dump)) Spares (start mask) s)
    (hended : s.running = false) :
    ∃ t sig, s.shared.entered = some t ∧ s.shared.flushed = true ∧ s.shared.written =
      [timeLine (scene t sig).timeInSec, frameLine "PC: ".toList (scene t sig).pc, signalLine (scene t sig).signalInfo] ++
        (scene t sig).stack.map (frameLine "    ".toList) := by
  obtain ⟨t, sig, hcomplete⟩ := (undisturbed_of_reaches h).ended hended
  exact ⟨t, sig, hcomplete.entered, hcomplete.flushed, hcomplete.written.trans (dump_eq _)⟩

/-- A crash in `main`, which is the only frame of the stack. -/
def sampleScene : Scene :=
  let frame : StackFrame := ⟨0x555555555139, some ⟨"main".toList, by decide, by decide⟩, fun _ => '?'⟩
  ⟨0, fun _ => '?', frame, ⟨11, 0, 1, 1, 0⟩, fun _ => '?', [frame]⟩

theorem crash_text_sample : ∃ t sig : Unit,
    (((Signals.Action.fault () ()) :: List.replicate 10 (Signals.Action.run ())).foldl
      (step (failureSignalHandler fun _ _ => sampleScene.dump)) (start fun _ _ => false)).shared.written =
        [timeLine 0, frameLine "PC: ".toList sampleScene.pc, signalLine sampleScene.signalInfo] ++
          sampleScene.stack.map (frameLine "    ".toList) ∧ t = sig := by
  have hfirst : Spares (start fun _ _ => false : State Unit Unit (Crash Unit) Point) (.fault () ()) := ⟨nofun, rfl⟩
  have hreaches : Reaches (step (failureSignalHandler fun _ _ => sampleScene.dump)) Spares (start fun _ _ => false)
      ((List.replicate 10 (Signals.Action.run ())).foldl (step (failureSignalHandler fun _ _ => sampleScene.dump))
        (step (failureSignalHandler fun _ _ => sampleScene.dump) (start fun _ _ => false) (.fault () ()))) := by
    refine Reaches.head hfirst (Reaches.foldl fun s a ha => ?_)
    rw [List.eq_of_mem_replicate ha]
    trivial
  obtain ⟨t, sig, -, -, hwritten⟩ := crash_text (fun _ _ => sampleScene) hreaches rfl
  exact ⟨t, sig, hwritten, rfl⟩

example : frameLine "PC: ".toList sampleScene.pc = "PC: @     0x555555555139 main\n".toList := by decide

end

end Glog.Signalhandler
