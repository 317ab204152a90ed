import Glog.LogFile.Write
import Glog.Memory.Cells
import Mathlib.Data.List.TakeDrop

/-! # Raw log lines

`RawLog__` formats a line into a buffer of its own by three calls of `vsnprintf`, which share a moving pointer and what
is left of the buffer. A length that does not fit is told from one that does only when it exceeds what is left, so a
message that fits without the terminator loses its end.

A line is written with one `write` of what `strlen` counts. -/

namespace Glog.RawLogging
open LogFile Memory

def kLogBufSize : Nat := 3000

/-- `*buf`, as an offset into the buffer, and `*size`, with the memory that the buffer is in. -/
structure RawBuffer where
  buf : Nat
  size : Nat
  memory : Cells Char

/-- `std::vsnprintf`, with the text that the format comes to: it returns the length of the text, and writes as much of it
    as fits before a terminator. -/
def vsnprintf (text : Text) (s : RawBuffer) : Int × Cells Char :=
  (text.length, if s.size = 0 then s.memory else s.memory.store s.buf (text.take (s.size - 1) ++ ['\x00']))

def doRawLog (text : Text) (s : RawBuffer) : Bool × RawBuffer :=
  let (n, memory) := vsnprintf text s
  if n < 0 ∨ n.toNat > s.size then (false, { s with memory := memory })
  else (true, ⟨s.buf + n.toNat, s.size - n.toNat, memory⟩)

/-- The same with the arguments in a `va_list`. -/
def vaDoRawLog (text : Text) (s : RawBuffer) : Bool × RawBuffer := doRawLog text s

def tooLong : Text := "RAW_LOG ERROR: The Message was too long!\n".toList

/-- `buffer`, with anything in the memory, after the three calls. -/
def formatLine (content : Nat → Char) (prefixText message : Text) : RawBuffer :=
  let s := (doRawLog prefixText ⟨0, kLogBufSize, ⟨content, []⟩⟩).2
  let (noChop, s) := vaDoRawLog message s
  (doRawLog (if noChop then ['\n'] else tooLong) s).2

/-- What is written of `buffer`: the bytes before the terminator. -/
def RawBuffer.line (s : RawBuffer) : Text := (s.memory.slice 0 kLogBufSize).takeWhile (· ≠ '\x00')

def constBasename (filepath : Text) : Text := (filepath.reverse.takeWhile (· ≠ '/')).reverse

/-- `"%c00000000 00:00:00.000000 %5u %s:%d] RAW: "`. -/
def rawPrefix (severity : Severity) (tid : Nat) (file : Text) (line : Int) : Text :=
  let tidText := decimal tid
  severity.name.take 1 ++ "00000000 00:00:00.000000 ".toList ++ List.replicate (5 - tidText.length) ' ' ++ tidText ++ [' ']
    ++ constBasename file ++ [':'] ++ decimal line ++ "] RAW: ".toList

structure RawFlags where
  logtostdout : Bool
  logtostderr : Bool
  stderrthreshold : Int
  alsologtostderr : Bool
  initialized : Bool

/-- The bytes that are written to the standard error output, `none` if the message is suppressed. -/
def rawLog (flags : RawFlags) (severity : Severity) (tid : Nat) (file : Text) (line : Int) (message : Text)
    (content : Nat → Char) : Option Text :=
  if !(flags.logtostdout || flags.logtostderr || decide (flags.stderrthreshold ≤ severity.toInt) || flags.alsologtostderr
      || !flags.initialized) then none
  else some (formatLine content (rawPrefix severity tid file line) message).line

/-- One complete line has been formatted: the message where it fits, with its terminator, or else the complaint; and
    nothing has been written outside of the buffer. -/
structure CompleteLine (prefixText message : Text) (s : RawBuffer) : Prop where
  length_lt : s.line.length < kLogBufSize
  complete : s.line = prefixText ++ message ++ ['\n'] ∨ s.line = prefixText ++ tooLong
  fits : (prefixText ++ message ++ ['\n']).length < kLogBufSize → s.line = prefixText ++ message ++ ['\n']
  inside : ∀ i ∈ s.memory.written, i < kLogBufSize

section
variable {text text' prefixText message : Text} {s : RawBuffer} {n : Nat} {content : Nat → Char}

/-! ### The calls -/

theorem vsnprintf_writes (text : Text) (s : RawBuffer) : Writes s.buf (s.buf + s.size) s.memory (vsnprintf text s).2 := by
  unfold vsnprintf
  dsimp only
  split
  · exact Writes.refl ..
  · refine store_writes.mono (Nat.le_refl _) ?_
    rw [List.length_append, List.length_take, List.length_singleton]
    omega

/-- The pointer and the size move together. -/
theorem doRawLog_end (text : Text) (h : s.buf + s.size = n) : (doRawLog text s).2.buf + (doRawLog text s).2.size = n := by
  unfold doRawLog
  dsimp only
  split
  · exact h
  · dsimp only
    omega

theorem doRawLog_writes (text : Text) (h : s.buf + s.size = n) : Writes 0 n s.memory (doRawLog text s).2.memory := by
  have hwrites := vsnprintf_writes text s
  have hmemory : (doRawLog text s).2.memory = (vsnprintf text s).2 := by
    unfold doRawLog
    dsimp only
    split <;> rfl
  rw [hmemory]
  exact hwrites.mono (Nat.zero_le _) (Nat.le_of_eq h)

theorem doRawLog_of_le {buf size : Nat} {m : Cells Char} (h : text.length ≤ size) (hsize : 0 < size) :
    doRawLog text ⟨buf, size, m⟩
      = (true, ⟨buf + text.length, size - text.length, m.store buf (text.take (size - 1) ++ ['\x00'])⟩) := by
  have hn : ¬((text.length : Int) < 0 ∨ (text.length : Int).toNat > size) := by omega
  unfold doRawLog vsnprintf
  dsimp only
  rw [if_neg hn, if_neg (Nat.pos_iff_ne_zero.mp hsize)]
  rfl

theorem doRawLog_of_gt {buf size : Nat} {m : Cells Char} (h : size < text.length) (hsize : 0 < size) :
    doRawLog text ⟨buf, size, m⟩ = (false, ⟨buf, size, m.store buf (text.take (size - 1) ++ ['\x00'])⟩) := by
  have hn : (text.length : Int) < 0 ∨ (text.length : Int).toNat > size := by omega
  unfold doRawLog vsnprintf
  dsimp only
  rw [if_pos hn, if_neg (Nat.pos_iff_ne_zero.mp hsize)]

/-- Nothing is written into a buffer of which nothing is left. -/
theorem doRawLog_full (text : Text) (buf : Nat) (m : Cells Char) : (doRawLog text ⟨buf, 0, m⟩).2.memory = m := by
  unfold doRawLog
  dsimp only
  split <;> rfl

theorem formatLine_inside : ∀ i ∈ (formatLine content prefixText message).memory.written, i < kLogBufSize := by
  let s : RawBuffer := ⟨0, kLogBufSize, ⟨content, []⟩⟩
  have hstart : s.buf + s.size = kLogBufSize := Nat.zero_add _
  have hend := doRawLog_end prefixText hstart
  have hend' := doRawLog_end message hend
  have hwrites := (doRawLog_writes prefixText hstart).trans (doRawLog_writes message hend)
  exact (hwrites.trans (doRawLog_writes _ hend')).before (by simp [s]) (Nat.le_refl _)

/-! ### The line -/

/-- The buffer holds a text and its terminator. -/
def Holds (text : Text) (m : Cells Char) : Prop := '\x00' ∉ text ∧ m.slice 0 (text.length + 1) = text ++ ['\x00']

theorem Holds.line (h : Holds text s.memory) (hlength : text.length < kLogBufSize) : s.line = text := by
  obtain ⟨hnul, hslice⟩ := h
  obtain ⟨rest, hrest⟩ := Nat.exists_eq_add_of_le (show text.length + 1 ≤ kLogBufSize from hlength)
  have hne : ∀ c ∈ text, decide (c ≠ '\x00') = true := fun c hc => decide_eq_true fun h => hnul (h ▸ hc)
  rw [RawBuffer.line, hrest, slice_add, hslice, List.append_assoc, List.takeWhile_append_of_pos hne]
  exact List.append_nil text

theorem Holds.start {m : Cells Char} {rest : Text} (h : Holds (text ++ rest) m) : m.slice 0 text.length = text := by
  obtain ⟨-, hslice⟩ := h
  rw [List.length_append, Nat.add_assoc, slice_add, List.append_assoc] at hslice
  exact (List.append_inj hslice length_slice).1

theorem Holds.slice {m : Cells Char} (h : Holds text m) : m.slice 0 text.length = text := by
  rw [← List.append_nil text] at h
  exact h.start

/-- A text that is stored behind another one. -/
theorem holds_store {m : Cells Char} (h : m.slice 0 text.length = text) (hnul : '\x00' ∉ text) (hnul' : '\x00' ∉ text') :
    Holds (text ++ text') (m.store text.length (text' ++ ['\x00'])) := by
  refine ⟨fun hmem => (List.mem_append.mp hmem).elim hnul hnul', ?_⟩
  have hstore := slice_store_append h (text' ++ ['\x00'])
  rw [Nat.zero_add, List.length_append, List.length_singleton] at hstore
  rw [List.length_append, Nat.add_assoc, hstore, List.append_assoc]

theorem doRawLog_prefix (content : Nat → Char) (hlength : prefixText.length < kLogBufSize) (hnul : '\x00' ∉ prefixText) :
    ∃ m, doRawLog prefixText ⟨0, kLogBufSize, ⟨content, []⟩⟩ =
      (true, ⟨prefixText.length, kLogBufSize - prefixText.length, m⟩) ∧
      m.slice 0 prefixText.length = prefixText := by
  have hstored : Holds ([] ++ prefixText) (Cells.store 0 (prefixText ++ ['\x00']) ⟨content, []⟩) :=
    holds_store rfl List.not_mem_nil hnul
  rw [List.nil_append] at hstored
  refine ⟨_, ?_, hstored.slice⟩
  rw [doRawLog_of_le (Nat.le_of_lt hlength) (by decide)]
  rw [List.take_of_length_le (Nat.le_sub_one_of_lt hlength), Nat.zero_add]

/-- A message that fits with its terminator: the end of the line may not. -/
theorem formatLine_of_lt (content : Nat → Char) (hnul : '\x00' ∉ prefixText) (hnul' : '\x00' ∉ message)
    (hlength : prefixText.length + message.length < kLogBufSize) : (formatLine content prefixText message).line
      = prefixText ++ message ++ ['\n'].take (kLogBufSize - prefixText.length - message.length - 1) := by
  obtain ⟨m, hfirst, hm⟩ := doRawLog_prefix content (by omega) hnul
  have hsecond : doRawLog message ⟨prefixText.length, kLogBufSize - prefixText.length, m⟩ = _ :=
    doRawLog_of_le (by omega) (by omega)
  rw [List.take_of_length_le (by omega)] at hsecond
  have hmessage := holds_store hm hnul hnul'
  have hnewline : '\x00' ∉ ['\n'].take (kLogBufSize - prefixText.length - message.length - 1) :=
    fun h => absurd (List.mem_of_mem_take h) (by decide)
  unfold formatLine vaDoRawLog
  rw [hfirst]
  dsimp only
  rw [hsecond]
  dsimp only
  rw [if_pos rfl, doRawLog_of_le (by rw [List.length_singleton]; omega) (by omega)]
  refine Holds.line ?_ ?_
  · rw [← List.length_append]
    exact holds_store hmessage.slice hmessage.1 hnewline
  · rw [List.length_append, List.length_append, List.length_take]
    omega

/-- A message that fits without its terminator loses its last byte. -/
theorem formatLine_of_eq (content : Nat → Char) (hnul : '\x00' ∉ prefixText) (hnul' : '\x00' ∉ message)
    (hlength : prefixText.length < kLogBufSize) (heq : prefixText.length + message.length = kLogBufSize) :
    (formatLine content prefixText message).line = prefixText ++ message.take (kLogBufSize - prefixText.length - 1) := by
  obtain ⟨m, hfirst, hm⟩ := doRawLog_prefix content hlength hnul
  have hsecond : doRawLog message ⟨prefixText.length, kLogBufSize - prefixText.length, m⟩ = _ :=
    doRawLog_of_le (by omega) (by omega)
  have hfull : kLogBufSize - prefixText.length - message.length = 0 := by omega
  rw [hfull] at hsecond
  unfold formatLine vaDoRawLog
  rw [hfirst]
  dsimp only
  rw [hsecond]
  refine Holds.line ?_ ?_
  · rw [doRawLog_full]
    exact holds_store hm hnul fun h => hnul' (List.mem_of_mem_take h)
  · rw [List.length_append, List.length_take]
    omega

/-- A longer message is replaced by the complaint. -/
theorem formatLine_of_gt (content : Nat → Char) (hnul : '\x00' ∉ prefixText) (hnul' : '\x00' ∉ message)
    (hlength : prefixText.length + tooLong.length ≤ kLogBufSize) (hgt : kLogBufSize < prefixText.length + message.length) :
    (formatLine content prefixText message).line = prefixText ++ tooLong.take (kLogBufSize - prefixText.length - 1) := by
  have hpos : 0 < tooLong.length := by decide
  obtain ⟨m, hfirst, hm⟩ := doRawLog_prefix content (by omega) hnul
  have hsecond : doRawLog message ⟨prefixText.length, kLogBufSize - prefixText.length, m⟩ = _ :=
    doRawLog_of_gt (by omega) (by omega)
  have hnone : '\x00' ∉ message.take (kLogBufSize - prefixText.length - 1) := fun h => hnul' (List.mem_of_mem_take h)
  have hcomplaint : '\x00' ∉ tooLong := by decide
  unfold formatLine vaDoRawLog
  rw [hfirst]
  dsimp only
  rw [hsecond]
  dsimp only
  rw [if_neg Bool.false_ne_true, doRawLog_of_le (by omega) (by omega)]
  refine Holds.line ?_ ?_
  · exact holds_store (holds_store hm hnul hnone).start hnul fun h => hcomplaint (List.mem_of_mem_take h)
  · rw [List.length_append, List.length_take]
    omega

/-- A line that has no room for the whole message is complete only as the complaint. -/
theorem completeLine_of_chopped (hline : (formatLine content prefixText message).line = prefixText ++ text)
    (hlength : prefixText.length + text.length < kLogBufSize)
    (hlong : kLogBufSize ≤ prefixText.length + message.length + 1) :
    CompleteLine prefixText message (formatLine content prefixText message) ↔ text = tooLong := by
  constructor
  · intro h
    rcases h.complete with hwhole | hcomplaint
    · have hlengths := congrArg List.length (hline.symm.trans hwhole)
      rw [List.length_append, List.length_append, List.length_append, List.length_singleton] at hlengths
      omega
    · exact List.append_cancel_left (hline.symm.trans hcomplaint)
  · rintro rfl
    refine ⟨?_, Or.inr hline, fun hfits => ?_, formatLine_inside⟩
    · rw [hline, List.length_append]
      exact hlength
    · rw [List.length_append, List.length_append, List.length_singleton] at hfits
      omega

/-! ### The prefix -/

theorem ne_nul_of_mem_decimal {i : Int} {c : Char} (h : c ∈ decimal i) : c ≠ '\x00' := by
  have hdigit : ∀ {n : Nat}, c ∈ Nat.toDigits 10 n → c ≠ '\x00' := by
    rintro n hmem rfl
    exact absurd (Nat.isDigit_of_mem_toDigits (by decide) (by decide) hmem) (by decide)
  cases i with
  | ofNat n => exact hdigit h
  | negSucc n =>
    rcases List.mem_cons.mp h with rfl | h
    · decide
    · exact hdigit h

theorem nul_notMem_rawPrefix {severity : Severity} {tid : Nat} {file : Text} {line : Int} (h : '\x00' ∉ file) :
    '\x00' ∉ rawPrefix severity tid file line := by
  have hname : '\x00' ∉ severity.name.take 1 := by cases severity <;> decide
  have hbase : '\x00' ∉ constBasename file := by
    intro hmem
    have hfile := (List.takeWhile_sublist _).mem (List.mem_reverse.mp hmem)
    exact h (List.mem_reverse.mp hfile)
  have htid : '\x00' ∉ decimal tid := fun hmem => ne_nul_of_mem_decimal hmem rfl
  have hline : '\x00' ∉ decimal line := fun hmem => ne_nul_of_mem_decimal hmem rfl
  simp [rawPrefix, hname, hbase, htid, hline]

/-- A line that fits is written as it is, unless the message is suppressed. -/
theorem rawLog_eq {flags : RawFlags} {severity : Severity} {tid : Nat} {file : Text} {line : Int} {out : Text}
    (h : rawLog flags severity tid file line message content = some out) (hnul : '\x00' ∉ file) (hnul' : '\x00' ∉ message)
    (hlength : (rawPrefix severity tid file line).length + message.length + 1 < kLogBufSize) :
    out = rawPrefix severity tid file line ++ message ++ ['\n'] := by
  unfold rawLog at h
  split at h
  · cases h
  · rw [← Option.some.inj h, formatLine_of_lt content (nul_notMem_rawPrefix hnul) hnul' (by omega),
      List.take_of_length_le (by rw [List.length_singleton]; omega)]

end

/-- A raw log line is complete exactly if the message fits with its end and the terminator, or does not fit without
    the terminator either while the complaint does with it, or begins with the complaint where it is chopped. -/
theorem completeLine_iff (content : Nat → Char) (prefixText message : Text) (hnul : '\x00' ∉ prefixText)
    (hnul' : '\x00' ∉ message) (hfit : prefixText.length + tooLong.length ≤ kLogBufSize) :
    CompleteLine prefixText message (formatLine content prefixText message) ↔
      prefixText.length + message.length + 1 < kLogBufSize ∨
        kLogBufSize < prefixText.length + message.length ∧ prefixText.length + tooLong.length < kLogBufSize ∨
          message.take (kLogBufSize - prefixText.length - 1) = tooLong := by
  have hpos : 0 < tooLong.length := by decide
  have hchopped : (message.take (kLogBufSize - prefixText.length - 1)).length ≤ kLogBufSize - prefixText.length - 1 :=
    List.length_take_le _ _
  obtain hlt | heq | hgt : prefixText.length + message.length < kLogBufSize ∨
    prefixText.length + message.length = kLogBufSize ∨ kLogBufSize < prefixText.length + message.length := by omega
  · have hline := formatLine_of_lt content hnul hnul' hlt
    by_cases hend : prefixText.length + message.length + 1 < kLogBufSize
    · rw [List.take_of_length_le (by rw [List.length_singleton]; omega)] at hline
      refine ⟨fun _ => Or.inl hend, fun _ => ⟨?_, Or.inl hline, fun _ => hline, formatLine_inside⟩⟩
      rw [hline, List.length_append, List.length_append, List.length_singleton]
      exact hend
    · -- the newline is cut off
      have hnone : kLogBufSize - prefixText.length - message.length - 1 = 0 := by omega
      have hall : message.take (kLogBufSize - prefixText.length - 1) = message := List.take_of_length_le (by omega)
      rw [hnone, List.take_zero, List.append_nil] at hline
      rw [completeLine_of_chopped hline hlt (by omega), hall]
      exact ⟨fun h => Or.inr (Or.inr h), fun h => (h.resolve_left hend).resolve_left fun hgt => by omega⟩
  · -- the last byte of the message is cut off
    have hline := formatLine_of_eq content hnul hnul' (by omega) heq
    rw [completeLine_of_chopped hline (by omega) (by omega)]
    exact ⟨fun h => Or.inr (Or.inr h), fun h => (h.resolve_left (by omega)).resolve_left fun hgt => by omega⟩
  · have hline := formatLine_of_gt content hnul hnul' hfit hgt
    have hlength := List.length_take_le (kLogBufSize - prefixText.length - 1) tooLong
    rw [completeLine_of_chopped hline (by omega) (by omega), List.take_eq_self_iff]
    constructor
    · intro hroom
      exact Or.inr (Or.inl ⟨hgt, by omega⟩)
    · rintro (hlt | ⟨-, hroom⟩ | hchop)
      · omega
      · omega
      · rw [hchop] at hchopped
        exact hchopped

/-- A message of one byte. -/
theorem completeLine_iff_short : CompleteLine ['>'] ['x'] (formatLine (fun _ => ' ') ['>'] ['x']) :=
  (completeLine_iff (fun _ => ' ') ['>'] ['x'] (by decide) (by decide) (by decide)).mpr (Or.inl (by decide))

/-- Behind a prefix of 45 bytes, a message of 2955 bytes loses its last byte and the newline. -/
theorem not_completeLine : ¬ ∀ (content : Nat → Char) (prefixText message : Text), '\x00' ∉ prefixText → '\x00' ∉ message →
    prefixText.length + tooLong.length ≤ kLogBufSize →
      CompleteLine prefixText message (formatLine content prefixText message) := by
  intro h
  let prefixText : Text := rawPrefix .info 1 ['a', '.', 'c', 'c'] 1
  let message : Text := List.replicate 2955 'x'
  have hlength : prefixText.length = 45 := by decide
  have hnul : '\x00' ∉ prefixText := by decide
  have hnul' : '\x00' ∉ message := fun hmem => absurd (List.eq_of_mem_replicate hmem) (by decide)
  have hmessage : message.length = 2955 := List.length_replicate
  have hline := formatLine_of_eq (fun _ => ' ') hnul hnul' (by rw [hlength]; decide) (by rw [hlength, hmessage]; rfl)
  have hcomplete := h (fun _ => ' ') prefixText message hnul hnul' (by rw [hlength]; decide)
  rw [hlength, List.take_replicate] at hline
  rw [completeLine_of_chopped hline (by rw [hlength, List.length_replicate]; decide) (by rw [hlength, hmessage]; decide)]
    at hcomplete
  have hlengths := congrArg List.length hcomplete
  rw [List.length_replicate] at hlengths
  exact absurd hlengths (by decide)

end Glog.RawLogging
