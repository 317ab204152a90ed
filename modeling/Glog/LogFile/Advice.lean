import Glog.LogFile.Counters

/-! # Advice on the memory of a log file

Behind a flush, `Write` tells the system which part of the file it may drop from memory: from where the last advice
ended to a mebibyte before the end of the file. The position and the lengths are `uint32`, the length of the file is
not. The lengths come out right all the same; the position wraps around when the advice has passed 4 GiB, and the same
bytes are advised again. -/

namespace Glog.LogFile
open Run

/-- A range that is passed to `posix_fadvise`, with the length of the file at that time. -/
structure Range where
  start : Nat
  length : Nat
  fileLength : Nat
  deriving DecidableEq

def Range.stop (r : Range) : Nat := r.start + r.length

/-- The advice that `dropLogMemory` gives. -/
def advice (cfg : Config) (o : LogFileObject) : Option Range :=
  if cfg.dropLogMemory ∧ o.fileLength ≥ 3145728 ∧ thisDropLength o ≥ 2097152 then
    some ⟨o.droppedMemLength, thisDropLength o, o.fileLength⟩
  else none

/-- The advice of a `Write` that has got as far as its message. -/
def adviceOfMessage (cfg : Config) (env : Env) (forceFlush : Bool) (message : Text) (o : LogFileObject) (p : Process) :
    Option Range :=
  if counts cfg env p && flushes env forceFlush message o then advice cfg (flush cfg env.now (withMessage env message o))
  else none

/-- A `Write`, with the variables of the process that it finds. -/
structure WriteCall where
  env : Env
  p : Process
  forceFlush : Bool
  timestamp : Int
  message : Text

/-- An object, with the ranges that have been advised for its file, the newest first. -/
structure Advised where
  object : LogFileObject
  ranges : List Range

/-- The ranges that are still about the file behind the rolling. -/
def keptRanges (cfg : Config) (s : Advised) (w : WriteCall) : List Range :=
  if (checkNeedRollLogFiles cfg w.env w.timestamp s.object w.p).1 then [] else s.ranges

/-- The advice of a `Write`. -/
def adviceOfWrite (cfg : Config) (o : LogFileObject) (w : WriteCall) : Option Range :=
  let r := prepare cfg w.env w.timestamp o w.p
  if r.1 then adviceOfMessage cfg w.env w.forceFlush w.message r.2.1 r.2.2 else none

def Advised.write (cfg : Config) (s : Advised) (w : WriteCall) : Advised where
  object := (LogFile.write cfg w.env w.forceFlush w.timestamp w.message s.object w.p).1
  ranges :=
    if s.object.baseFilenameSelected ∧ s.object.baseFilename = [] then s.ranges
    else (adviceOfWrite cfg s.object w).toList ++ keptRanges cfg s w

/-- Where the last range ends. -/
def lastStop : List Range → Nat
  | [] => 0
  | r :: _ => r.stop

/-- Each range starts where the one before it ends, the first one at the beginning of the file. -/
def Consecutive : List Range → Prop
  | [] => True
  | r :: rs => r.start = lastStop rs ∧ Consecutive rs

/-- The ranges follow one another without overlap, are worth a call, and leave out the last mebibyte at least. -/
structure SoundAdvice (rs : List Range) : Prop where
  consecutive : Consecutive rs
  disjoint : rs.Pairwise fun later earlier => earlier.stop ≤ later.start
  long : ∀ r ∈ rs, 2097152 ≤ r.length
  behind : ∀ r ∈ rs, r.stop + 1048576 ≤ r.fileLength / 1048576 * 1048576

/-- Where a `Write` gives advice, the advice has not passed 4 GiB yet. -/
def Early (cfg : Config) (s : Advised) (w : WriteCall) : Prop :=
  ¬(s.object.baseFilenameSelected ∧ s.object.baseFilename = []) → (adviceOfWrite cfg s.object w).isSome →
    lastStop (keptRanges cfg s w) < 4294967296

/-- The position is the number of bytes that have been advised, as a `uint32`. -/
structure Counting (o : LogFileObject) (rs : List Range) : Prop where
  bytesSinceFlush : o.bytesSinceFlush < 4294967296
  droppedMemLength : o.droppedMemLength = (rs.map Range.length).sum % 4294967296
  fileLength : ∀ r ∈ rs, r.fileLength ≤ o.fileLength

section
variable {cfg : Config} {env : Env} {o o' : LogFileObject} {p : Process} {rs : List Range} {r : Range} {w : WriteCall}
  {s : Advised}

/-! ### Ranges -/

theorem Consecutive.sum (h : Consecutive rs) : lastStop rs = (rs.map Range.length).sum := by
  induction rs with
  | nil => rfl
  | cons r rs ih =>
    obtain ⟨hstart, hrest⟩ := h
    rw [List.map_cons, List.sum_cons, ← ih hrest, ← hstart, Nat.add_comm]
    rfl

theorem Consecutive.stop_le (h : Consecutive rs) : ∀ r ∈ rs, r.stop ≤ lastStop rs := by
  induction rs with
  | nil => exact fun r hr => absurd hr List.not_mem_nil
  | cons r rs ih =>
    obtain ⟨hstart, hrest⟩ := h
    intro e he
    rcases List.mem_cons.mp he with rfl | he
    · exact Nat.le_refl _
    · have hle := ih hrest e he
      have hnext : r.start ≤ r.stop := Nat.le_add_right ..
      rw [lastStop]
      omega

/-- Where the advice that is due ends, it ends on a mebibyte before the last full one of the file. -/
theorem advice_eq (h : advice cfg o = some r) : cfg.dropLogMemory = true ∧ 3145728 ≤ o.fileLength ∧ 2097152 ≤ r.length ∧
    r.start = o.droppedMemLength ∧ r.length = thisDropLength o ∧ r.fileLength = o.fileLength := by
  unfold advice at h
  split at h
  · rename_i hcond
    cases h
    exact ⟨hcond.1, hcond.2.1, hcond.2.2, rfl, rfl, rfl⟩
  · cases h

/-- The next range is sound exactly if the position has not wrapped around. -/
theorem soundAdvice_cons_iff (hsound : SoundAdvice rs) (hcounting : Counting o rs) (hadvice : advice cfg o = some r) :
    SoundAdvice (r :: rs) ↔ lastStop rs < 4294967296 := by
  obtain ⟨-, hlength, hlong, hstart, hthis, hfile⟩ := advice_eq hadvice
  have hsum := hsound.consecutive.sum
  have hdropped := hcounting.droppedMemLength
  rw [← hsum, ← hstart] at hdropped
  constructor
  · intro h
    have hnext : r.start = lastStop rs := h.consecutive.1
    omega
  · intro hearly
    have hnext : r.start = lastStop rs := by omega
    have hroom : lastStop rs + 1048576 ≤ o.fileLength / 1048576 * 1048576 := by
      cases rs with
      | nil =>
        rw [lastStop]
        omega
      | cons e rs =>
        have hbehind := hsound.behind e List.mem_cons_self
        have hle := hcounting.fileLength e List.mem_cons_self
        exact Nat.le_trans hbehind (Nat.mul_le_mul_right _ (Nat.div_le_div_right hle))
    refine ⟨⟨hnext, hsound.consecutive⟩, .cons ?_ hsound.disjoint, ?_, ?_⟩
    · intro e he
      rw [hnext]
      exact hsound.consecutive.stop_le e he
    · intro e he
      rcases List.mem_cons.mp he with rfl | he
      · exact hlong
      · exact hsound.long e he
    · intro e he
      rcases List.mem_cons.mp he with rfl | he
      · unfold Range.stop
        unfold thisDropLength totalDropLength at hthis
        rw [← hstart] at hthis
        omega
      · exact hsound.behind e he

/-! ### The steps of a `Write` -/

theorem Counting.raise {n : Nat} (h : Counting o rs) (hraised : Raised n o o') : Counting o' rs where
  bytesSinceFlush := by
    rw [hraised.bytesSinceFlush]
    exact Nat.mod_lt _ (by decide)
  droppedMemLength := hraised.droppedMemLength.trans h.droppedMemLength
  fileLength r hr := by
    rw [hraised.fileLength]
    exact Nat.le_trans (h.fileLength r hr) (Nat.le_add_right ..)

theorem Counting.flush {now : Int} (h : Counting o rs) : Counting (flush cfg now o) rs := by
  unfold LogFile.flush
  dsimp only
  split
  · exact ⟨Nat.zero_lt_succ _, h.droppedMemLength, h.fileLength⟩
  · exact ⟨h.bytesSinceFlush, h.droppedMemLength, h.fileLength⟩

theorem totalDropLength_lt : totalDropLength o < 4294967296 := Nat.mod_lt _ (by decide)

theorem Counting.drop (h : Counting o rs) : Counting (dropLogMemory cfg o) ((advice cfg o).toList ++ rs) := by
  unfold dropLogMemory advice
  split
  · refine ⟨h.bytesSinceFlush, ?_, ?_⟩
    · have hdropped := h.droppedMemLength
      have hlt := @totalDropLength_lt o
      change totalDropLength o = (thisDropLength o + (rs.map Range.length).sum) % 4294967296
      unfold thisDropLength
      omega
    · intro r hr
      rcases List.mem_cons.mp hr with rfl | hr
      · exact Nat.le_refl _
      · exact h.fileLength r hr
  · exact h

/-- Behind the rolling and the header. -/
theorem Counting.prepare (cfg : Config) (h : Counting s.object s.ranges) (w : WriteCall) :
    Counting (prepare cfg w.env w.timestamp s.object w.p).2.1 (keptRanges cfg s w) := by
  refine Counting.raise ?_ (prepare_headed h.bytesSinceFlush).raised
  unfold rolled keptRanges
  cases (checkNeedRollLogFiles cfg w.env w.timestamp s.object w.p).1 with
  | true => exact ⟨Nat.zero_lt_succ _, rfl, fun r hr => absurd hr List.not_mem_nil⟩
  | false => exact h

theorem adviceOfMessage_counting {force : Bool} {message : Text} (h : Counting o rs) :
    Counting (writeMessage cfg env force message o p).1 ((adviceOfMessage cfg env force message o p).toList ++ rs) := by
  unfold adviceOfMessage
  cases hcounts : counts cfg env p with
  | false => exact h.raise ((writeMessage_same hcounts).raised_zero h.bytesSinceFlush)
  | true =>
    have hmessage : Counting (withMessage env message o) rs := h.raise (appendChunk_raised (.message message) o)
    rw [writeMessage_eq hcounts, Bool.true_and]
    split
    · exact hmessage.flush.drop
    · exact hmessage

theorem soundAdvice_adviceOfMessage_iff {force : Bool} {message : Text} (hsound : SoundAdvice rs) (h : Counting o rs) :
    SoundAdvice ((adviceOfMessage cfg env force message o p).toList ++ rs) ↔
      ((adviceOfMessage cfg env force message o p).isSome → lastStop rs < 4294967296) := by
  unfold adviceOfMessage
  split
  · have hmessage : Counting (withMessage env message o) rs := h.raise (appendChunk_raised (.message message) o)
    cases hadvice : advice cfg (flush cfg env.now (withMessage env message o)) with
    | none => exact ⟨fun _ hsome => absurd hsome Bool.false_ne_true, fun _ => hsound⟩
    | some r =>
      have hiff := soundAdvice_cons_iff hsound hmessage.flush hadvice
      exact ⟨fun h _ => hiff.mp h, fun h => hiff.mpr (h rfl)⟩
  · exact ⟨fun _ hsome => absurd hsome Bool.false_ne_true, fun _ => hsound⟩

theorem soundAdvice_keptRanges (h : SoundAdvice s.ranges) : SoundAdvice (keptRanges cfg s w) := by
  unfold keptRanges
  split
  · exact ⟨trivial, .nil, by simp, by simp⟩
  · exact h

theorem write_counting (h : Counting s.object s.ranges) (w : WriteCall) :
    Counting (s.write cfg w).object (s.write cfg w).ranges := by
  have hprepared := h.prepare cfg w
  unfold Advised.write LogFile.write adviceOfWrite
  dsimp only
  split
  · exact h
  · split
    · exact adviceOfMessage_counting hprepared
    · exact hprepared

/-- A `Write` keeps the advice sound exactly if it comes early enough. -/
theorem soundAdvice_write_iff (hsound : SoundAdvice s.ranges) (h : Counting s.object s.ranges) (w : WriteCall) :
    SoundAdvice (s.write cfg w).ranges ↔ Early cfg s w := by
  have hprepared := h.prepare cfg w
  have hkept : SoundAdvice (keptRanges cfg s w) := soundAdvice_keptRanges hsound
  unfold Advised.write Early adviceOfWrite
  dsimp only
  by_cases hbase : s.object.baseFilenameSelected ∧ s.object.baseFilename = []
  · rw [if_pos hbase]
    exact ⟨fun _ hnot => absurd hbase hnot, fun _ => hsound⟩
  · rw [if_neg hbase]
    split
    · rw [soundAdvice_adviceOfMessage_iff hkept hprepared]
      exact ⟨fun h _ => h, fun h => h hbase⟩
    · exact ⟨fun _ _ hsome => absurd hsome Bool.false_ne_true, fun _ => hkept⟩

end

/-- From counters that are zero, the advice on each file is sound all along exactly the runs in which every advice comes
    early enough. -/
theorem always_soundAdvice_iff (cfg : Config) (o : LogFileObject) (writes : List WriteCall)
    (hzero : o.fileLength = 0 ∧ o.bytesSinceFlush = 0 ∧ o.droppedMemLength = 0) :
    Always (Advised.write cfg) (fun s => SoundAdvice s.ranges) ⟨o, []⟩ writes ↔
      Each (Advised.write cfg) (Early cfg) ⟨o, []⟩ writes := by
  refine always_iff_each (N := fun s => Counting s.object s.ranges) (fun s w h => write_counting h w)
    (fun s w h hsound => soundAdvice_write_iff hsound h w) ?_ ?_
  · exact ⟨by rw [hzero.2.1]; decide, by rw [hzero.2.2]; rfl, fun r hr => absurd hr List.not_mem_nil⟩
  · exact ⟨trivial, .nil, by simp, by simp⟩

/-! ### Below and past 4 GiB -/

def dropConfig : Config := { plainConfig with dropLogMemory := true }

def bulkWrite (n : Nat) : WriteCall := ⟨plainEnv, plainProcess, true, 0, List.replicate n 'x'⟩

/-- A file is open, the day is not over, and the counters are these. -/
structure OpenAt (length dropped : Nat) (o : LogFileObject) : Prop where
  file : o.file.isSome
  tmTime : o.tmTime = plainTm 0
  baseFilename : o.baseFilename = ['a']
  fileLength : o.fileLength = length
  droppedMemLength : o.droppedMemLength = dropped

/-- An object with these counters. -/
def countersAt (length dropped : Nat) : LogFileObject :=
  { plainObject dropConfig with fileLength := length, droppedMemLength := dropped }

section
variable {length dropped n : Nat} {s : Advised} {o : LogFileObject}

theorem OpenAt.drop (h : OpenAt length dropped o) :
    advice dropConfig o = advice dropConfig (countersAt length dropped) ∧
      OpenAt length (dropLogMemory dropConfig (countersAt length dropped)).droppedMemLength
        (dropLogMemory dropConfig o) := by
  obtain ⟨hfile, htm, hbase, rfl, rfl⟩ := h
  refine ⟨rfl, ?_, ?_, ?_, ?_, ?_⟩
  · rw [dropLogMemory_file]
    exact hfile
  · unfold dropLogMemory
    split <;> exact htm
  · unfold dropLogMemory
    split <;> exact hbase
  · exact dropLogMemory_fileLength dropConfig o
  · unfold dropLogMemory
    split
    · rename_i hcond
      rw [if_pos (by exact hcond)]
      rfl
    · rename_i hcond
      rw [if_neg (by exact hcond)]
      rfl

theorem OpenAt.bulkWrite (h : OpenAt length dropped s.object) :
    (s.write dropConfig (bulkWrite n)).ranges = (advice dropConfig (countersAt (length + n) dropped)).toList ++ s.ranges ∧
      OpenAt (length + n) (dropLogMemory dropConfig (countersAt (length + n) dropped)).droppedMemLength
        (s.write dropConfig (LogFile.bulkWrite n)).object := by
  have hneed : (checkNeedRollLogFiles dropConfig plainEnv 0 s.object plainProcess).1 = false := by
    change (!sameDay (plainTm 0) s.object.tmTime) = false
    rw [h.tmTime]
    decide
  have hprepare : prepare dropConfig plainEnv 0 s.object plainProcess = (true, s.object, plainProcess) := by
    obtain ⟨file, hfile⟩ := Option.isSome_iff_exists.mp h.file
    cases prepare_prepared dropConfig plainEnv 0 s.object plainProcess with
    | stays _ _ _ heq => exact heq
    | reopens rolled hrolled hnone =>
      rw [hrolled, hneed] at hnone
      exact absurd (hfile.symm.trans hnone) (Option.some_ne_none file)
    | makes rolled hrolled hnone =>
      rw [hrolled, hneed] at hnone
      exact absurd (hfile.symm.trans hnone) (Option.some_ne_none file)
  have hbase : ¬(s.object.baseFilenameSelected ∧ s.object.baseFilename = []) := by
    rw [h.baseFilename]
    exact fun hempty => absurd hempty.2 (List.cons_ne_nil _ _)
  let o₂ := flush dropConfig 0 (withMessage plainEnv (List.replicate n 'x') s.object)
  have hopen : OpenAt (length + n) dropped o₂ := by
    refine ⟨?_, ?_, ?_, ?_, ?_⟩
    · rw [flush_file]
      change (s.object.file.map _).isSome = true
      rw [Option.isSome_map]
      exact h.file
    · unfold o₂ flush
      split <;> exact h.tmTime
    · unfold o₂ flush
      split <;> exact h.baseFilename
    · rw [flush_fileLength]
      change s.object.fileLength + (List.replicate n 'x').length = length + n
      rw [h.fileLength, List.length_replicate]
    · unfold o₂ flush
      split <;> exact h.droppedMemLength
  obtain ⟨hadvice, hdropped⟩ := hopen.drop
  have hranges : keptRanges dropConfig s (LogFile.bulkWrite n) = s.ranges :=
    if_neg (by rw [LogFile.bulkWrite, hneed]; decide)
  unfold Advised.write adviceOfWrite LogFile.write
  rw [if_neg hbase, if_neg hbase, hranges, LogFile.bulkWrite, hprepare]
  refine ⟨?_, ?_⟩
  · rw [← hadvice]
    rfl
  · exact hdropped

end

/-- The file behind its creation. -/
def openedObject : LogFileObject := (prepare dropConfig plainEnv 0 (plainObject dropConfig) plainProcess).2.1

theorem lastStop_keptRanges_le (cfg : Config) (s : Advised) (w : WriteCall) :
    lastStop (keptRanges cfg s w) ≤ lastStop s.ranges := by
  unfold keptRanges
  split
  · exact Nat.zero_le _
  · exact Nat.le_refl _

/-- Of four mebibytes the first three are advised, and two more behind two more. -/
theorem always_soundAdvice_iff_two :
    Always (Advised.write dropConfig) (fun s => SoundAdvice s.ranges) ⟨openedObject, []⟩ [bulkWrite 4194304,
      bulkWrite 2097152] ∧
      (((Advised.mk openedObject []).write dropConfig (bulkWrite 4194304)).write dropConfig (bulkWrite 2097152)).ranges =
        [⟨3145728, 2097152, 6291456⟩, ⟨0, 3145728, 4194304⟩] := by
  have hopen : OpenAt 0 0 (Advised.mk openedObject []).object := ⟨rfl, rfl, rfl, rfl, rfl⟩
  obtain ⟨hfirst, hopen⟩ := hopen.bulkWrite (n := 4194304)
  obtain ⟨hsecond, -⟩ := hopen.bulkWrite (n := 2097152)
  refine ⟨(always_soundAdvice_iff dropConfig openedObject _ ⟨rfl, rfl, rfl⟩).mpr ⟨fun _ _ => ?_,
    fun _ _ => ?_, trivial⟩, ?_⟩
  · exact Nat.lt_of_le_of_lt (lastStop_keptRanges_le _ _ _) (by decide)
  · refine Nat.lt_of_le_of_lt (lastStop_keptRanges_le _ _ _) ?_
    rw [hfirst]
    decide
  · rw [hsecond, hfirst]
    decide

/-- Of 4 GiB and twice two mebibytes, the last advice is about the second mebibyte again. -/
theorem not_always_soundAdvice : ¬ ∀ (cfg : Config) (o : LogFileObject) (writes : List WriteCall),
    o.fileLength = 0 ∧ o.bytesSinceFlush = 0 ∧ o.droppedMemLength = 0 →
      Always (Advised.write cfg) (fun s => SoundAdvice s.ranges) ⟨o, []⟩ writes := by
  intro h
  have hthree : ∀ w₁ w₂ w₃ : WriteCall,
      SoundAdvice ((((Advised.mk openedObject []).write dropConfig w₁).write dropConfig w₂).write
      dropConfig w₃).ranges := fun w₁ w₂ w₃ => (h dropConfig openedObject [w₁, w₂, w₃] ⟨rfl, rfl, rfl⟩).2.2.2
  have hopen : OpenAt 0 0 (Advised.mk openedObject []).object := ⟨rfl, rfl, rfl, rfl, rfl⟩
  obtain ⟨hfirst, hopen⟩ := hopen.bulkWrite (n := 4294967296)
  obtain ⟨hsecond, hopen⟩ := hopen.bulkWrite (n := 2097152)
  obtain ⟨hthird, -⟩ := hopen.bulkWrite (n := 2097152)
  have hsound := hthree (bulkWrite 4294967296) (bulkWrite 2097152) (bulkWrite 2097152)
  rw [hthird, hsecond, hfirst] at hsound
  exact absurd hsound.consecutive.1 (by decide)

end Glog.LogFile
