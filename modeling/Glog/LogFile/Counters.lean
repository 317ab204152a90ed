import Glog.LogFile.LogSize

/-! # The counters of a log file object

A `Write` resets the counters when it rolls, and then raises them by the header of a file that it makes and by the
message. What a flush then does to them depends on these sums alone. -/

namespace Glog.LogFile

section
variable (cfg : Config) (env : Env)

/-- The object behind the rolling. -/
def rolled (timestamp : Int) (o : LogFileObject) (p : Process) : LogFileObject :=
  rollIfNeeded (checkNeedRollLogFiles cfg env timestamp o p).1 o

/-- A `Write` makes a new file: none is open, none is reopened, and the attempt is made and succeeds. -/
def makesFile (timestamp : Int) (o : LogFileObject) (p : Process) : Bool :=
  let rolled := rolled cfg env timestamp o p
  rolled.file.isNone && (reopenedFile cfg env rolled).isNone && rolled.rolloverAttempt + 1 == kRolloverAttemptFrequency &&
    (createdFile cfg env timestamp rolled (checkNeedRollLogFiles cfg env timestamp o p).2).isSome

/-- The length of the header of a file, if it has been made. -/
def headerIf (timestamp : Int) (o : LogFileObject) (made : Bool) : Nat :=
  if made && cfg.logFileHeader then (fileHeader cfg env o.startTime (namingTime cfg timestamp)).length else 0

/-- The length of the header that a `Write` puts into a file that it makes. -/
def headerLength (timestamp : Int) (o : LogFileObject) (p : Process) : Nat :=
  headerIf cfg env timestamp o (makesFile cfg env timestamp o p)

/-- From `o` to `o'` the counters have been raised by so many bytes. -/
structure Raised (n : Nat) (o o' : LogFileObject) : Prop where
  fileLength : o'.fileLength = o.fileLength + n
  bytesSinceFlush : o'.bytesSinceFlush = (o.bytesSinceFlush + n) % 4294967296
  droppedMemLength : o'.droppedMemLength = o.droppedMemLength
  nextFlushTime : o'.nextFlushTime = o.nextFlushTime

/-- The counters are the same. -/
structure SameCounts (o o' : LogFileObject) : Prop where
  fileLength : o'.fileLength = o.fileLength
  bytesSinceFlush : o'.bytesSinceFlush = o.bytesSinceFlush
  droppedMemLength : o'.droppedMemLength = o.droppedMemLength
  nextFlushTime : o'.nextFlushTime = o.nextFlushTime

/-- The bytes that have been written to the open file. -/
def openSize (o : LogFileObject) : Nat := (o.file.map Handle.size).getD 0

variable {cfg env} {o o' : LogFileObject} {p : Process} {timestamp : Int} {n : Nat}

theorem SameCounts.raised_zero (h : SameCounts o o') (hbytes : o.bytesSinceFlush < 4294967296) : Raised 0 o o' :=
  ⟨h.fileLength, by rw [h.bytesSinceFlush, Nat.add_zero, Nat.mod_eq_of_lt hbytes], h.droppedMemLength, h.nextFlushTime⟩

theorem SameCounts.raised {o₁ : LogFileObject} (hsame : SameCounts o o₁) (h : Raised n o₁ o') : Raised n o o' :=
  ⟨by rw [h.fileLength, hsame.fileLength], by rw [h.bytesSinceFlush, hsame.bytesSinceFlush],
    by rw [h.droppedMemLength, hsame.droppedMemLength], by rw [h.nextFlushTime, hsame.nextFlushTime]⟩

theorem appendChunk_raised (c : Chunk) (o : LogFileObject) :
    Raised c.text.length o (countBytes c.text.length (appendChunk env c o)) :=
  ⟨rfl, rfl, rfl, rfl⟩

theorem openSize_appendChunk_le (c : Chunk) (o : LogFileObject) :
    openSize (countBytes n (appendChunk env c o)) ≤ openSize o + c.text.length := by
  unfold openSize countBytes appendChunk
  dsimp only
  cases o.file with
  | none => exact Nat.zero_le _
  | some h =>
    simp only [Option.map_some, Option.getD_some, Handle.size_append, Chunk.length_take (env.taken_le c)]
    exact Nat.add_le_add_left (env.taken_le c) _

theorem writeHeader_raised {tm : Tm} (h : o.bytesSinceFlush < 4294967296) :
    Raised (if cfg.logFileHeader then (fileHeader cfg env o.startTime tm).length else 0) o (writeHeader cfg env tm o) := by
  unfold writeHeader
  split
  · exact appendChunk_raised (.header (fileHeader cfg env o.startTime tm)) o
  · exact SameCounts.raised_zero ⟨rfl, rfl, rfl, rfl⟩ h

theorem openSize_writeHeader_le {tm : Tm} : openSize (writeHeader cfg env tm o)
    ≤ openSize o + if cfg.logFileHeader then (fileHeader cfg env o.startTime tm).length else 0 := by
  unfold writeHeader
  split
  · exact openSize_appendChunk_le (.header (fileHeader cfg env o.startTime tm)) o
  · exact Nat.le_refl _

theorem SameCounts.trans {o₁ : LogFileObject} (h : SameCounts o o₁) (h' : SameCounts o₁ o') : SameCounts o o' :=
  ⟨h'.fileLength.trans h.fileLength, h'.bytesSinceFlush.trans h.bytesSinceFlush,
    h'.droppedMemLength.trans h.droppedMemLength, h'.nextFlushTime.trans h.nextFlushTime⟩

theorem pruned_same : SameCounts o (pruned cfg env timestamp o) ∧ (pruned cfg env timestamp o).startTime = o.startTime ∧
    openSize (pruned cfg env timestamp o) = openSize o := by
  obtain ⟨l, rs, hpruned⟩ := pruned_eq cfg env timestamp o
  rw [hpruned]
  exact ⟨⟨rfl, rfl, rfl, rfl⟩, rfl, rfl⟩

theorem Attempt.same {made : Option (Nat × Bool)} (h : Attempt env timestamp o made o') :
    SameCounts o o' ∧ o'.startTime = o.startTime ∧ openSize o' = if made.isSome then 0 else openSize o := by
  cases h with
  | failed base paths _ => exact ⟨⟨rfl, rfl, rfl, rfl⟩, rfl, rfl⟩
  | success base paths path name inode isNew _ => exact ⟨⟨rfl, rfl, rfl, rfl⟩, rfl, rfl⟩

/-- What `makeFile` does to the counters, seen from an object without a file. -/
theorem makeFile_raised (h : o.bytesSinceFlush < 4294967296) (hfile : o.file = none) :
    let made := o.rolloverAttempt + 1 == kRolloverAttemptFrequency && (createdFile cfg env timestamp o p).isSome
    Raised (headerIf cfg env timestamp o made) o (makeFile cfg env timestamp o p).2.1 ∧
      openSize (makeFile cfg env timestamp o p).2.1 ≤ headerIf cfg env timestamp o made ∧
      ((makeFile cfg env timestamp o p).1 = false → headerIf cfg env timestamp o made = 0) := by
  have hclosed : openSize o = 0 := by rw [openSize, hfile]; rfl
  dsimp only
  rcases makeFile_cases cfg env timestamp o p with ⟨hnot, heq⟩ | ⟨hdue, made, o', p', hcreated, hattempt, heq⟩
  · rw [heq, beq_false_of_ne hnot, Bool.false_and]
    exact ⟨SameCounts.raised_zero ⟨rfl, rfl, rfl, rfl⟩ h, Nat.le_of_eq hclosed, fun _ => rfl⟩
  · obtain ⟨hpruned, hprunedStart, hprunedSize⟩ := @pruned_same cfg env o timestamp
    obtain ⟨hsame, hstart, hsize⟩ := hattempt.same
    have hcounts := hpruned.trans hsame
    rw [heq, hdue, beq_self_eq_true, hcreated, Bool.true_and]
    cases made with
    | none =>
      refine ⟨hcounts.raised_zero h, ?_⟩
      rw [Option.isSome_none, if_neg Bool.false_ne_true, hprunedSize, hclosed] at hsize
      exact ⟨Nat.le_of_eq hsize, fun _ => rfl⟩
    | some f =>
      have hbytes : o'.bytesSinceFlush < 4294967296 := by rw [hcounts.bytesSinceFlush]; exact h
      have hheader := @writeHeader_raised cfg env o' (namingTime cfg timestamp) hbytes
      have hle := @openSize_writeHeader_le cfg env o' (namingTime cfg timestamp)
      rw [hstart, hprunedStart] at hheader hle
      rw [hsize, Option.isSome_some, if_pos rfl, Nat.zero_add] at hle
      exact ⟨hcounts.raised hheader, hle, fun h => absurd h.symm Bool.false_ne_true⟩

theorem bytesSinceFlush_rolled_lt (h : o.bytesSinceFlush < 4294967296) :
    (rolled cfg env timestamp o p).bytesSinceFlush < 4294967296 := by
  unfold rolled
  cases (checkNeedRollLogFiles cfg env timestamp o p).1 with
  | true => exact Nat.zero_lt_succ _
  | false => exact h

theorem startTime_rolled : (rolled cfg env timestamp o p).startTime = o.startTime := by
  unfold rolled
  cases (checkNeedRollLogFiles cfg env timestamp o p).1 <;> rfl

/-- Before the message, a `Write` raises the counters behind the rolling by the header. A file that stays open is left as
    it is, and one that is opened holds the header at most. -/
structure Headed (cfg : Config) (env : Env) (timestamp : Int) (o : LogFileObject) (p : Process) : Prop where
  raised : Raised (headerLength cfg env timestamp o p) (rolled cfg env timestamp o p) (prepare cfg env timestamp o p).2.1
  stays : (rolled cfg env timestamp o p).file.isSome → (prepare cfg env timestamp o p).2.1.file = o.file
  opened : (rolled cfg env timestamp o p).file = none →
    openSize (prepare cfg env timestamp o p).2.1 ≤ headerLength cfg env timestamp o p
  failed : (prepare cfg env timestamp o p).1 = false →
    (rolled cfg env timestamp o p).file = none ∧ headerLength cfg env timestamp o p = 0

/-- The same, for any step from `o₀` that tells whether there is a file to write to. `file` is what stays open. -/
structure HeadedBy (n : Nat) (o₀ : LogFileObject) (file : Option Handle) (r : Bool × LogFileObject × Process) : Prop where
  raised : Raised n o₀ r.2.1
  stays : o₀.file.isSome → r.2.1.file = file
  opened : o₀.file = none → openSize r.2.1 ≤ n
  failed : r.1 = false → o₀.file = none ∧ n = 0

/-- A step that finds a file open, or has just reopened one, makes no header. -/
theorem headedBy_open {file : Option Handle} (hbytes : o.bytesSinceFlush < 4294967296) (hsame : SameCounts o o')
    (hstays : o.file.isSome → o'.file = file) (hopened : o.file = none → openSize o' = 0) :
    HeadedBy 0 o file (true, o', p) where
  raised := hsame.raised_zero hbytes
  stays := hstays
  opened := fun hnone => Nat.le_of_eq (hopened hnone)
  failed := fun hfalse => absurd hfalse.symm Bool.false_ne_true

theorem makeFile_headedBy {file : Option Handle} (hbytes : o.bytesSinceFlush < 4294967296) (hfile : o.file = none) :
    HeadedBy (headerIf cfg env timestamp o (o.rolloverAttempt + 1 == kRolloverAttemptFrequency &&
      (createdFile cfg env timestamp o p).isSome)) o file (makeFile cfg env timestamp o p) := by
  obtain ⟨hraised, hsize, hfailed⟩ := @makeFile_raised cfg env o p timestamp hbytes hfile
  refine ⟨hraised, fun hsome => ?_, fun _ => hsize, fun hfalse => ⟨hfile, hfailed hfalse⟩⟩
  rw [hfile] at hsome
  exact absurd hsome Bool.false_ne_true

/-- What holds from an object with the same counters and the same file holds from the object itself. -/
theorem HeadedBy.of_same {file : Option Handle} {o₁ : LogFileObject} {r : Bool × LogFileObject × Process}
    (h : HeadedBy n o₁ file r) (hsame : SameCounts o o₁) (hfile : o.file = o₁.file) : HeadedBy n o file r where
  raised := hsame.raised h.raised
  stays := fun hsome => h.stays (by rw [← hfile]; exact hsome)
  opened := fun hnone => h.opened (hfile.symm.trans hnone)
  failed := fun hfalse => ⟨hfile.trans (h.failed hfalse).1, (h.failed hfalse).2⟩

theorem file_rolled (h : (rolled cfg env timestamp o p).file.isSome) : (rolled cfg env timestamp o p).file = o.file := by
  unfold rolled at h ⊢
  cases hneed : (checkNeedRollLogFiles cfg env timestamp o p).1 with
  | true =>
    rw [hneed] at h
    exact absurd h Bool.false_ne_true
  | false => rfl

theorem prepare_headed (h : o.bytesSinceFlush < 4294967296) : Headed cfg env timestamp o p := by
  have hbound := @bytesSinceFlush_rolled_lt cfg env o p timestamp h
  have hstart := @startTime_rolled cfg env o p timestamp
  have hprepare : prepare cfg env timestamp o p =
      (let o' := reopenHistory cfg env timestamp (rolled cfg env timestamp o p)
      if o'.file.isNone then makeFile cfg env timestamp o' (checkNeedRollLogFiles cfg env timestamp o p).2
      else (true, o', (checkNeedRollLogFiles cfg env timestamp o p).2)) := rfl
  have hreopened := reopenHistory_reopened cfg env timestamp (rolled cfg env timestamp o p)
  have hheader : headerLength cfg env timestamp o p = headerIf cfg env timestamp (rolled cfg env timestamp o p)
      ((rolled cfg env timestamp o p).file.isNone && (reopenedFile cfg env (rolled cfg env timestamp o p)).isNone &&
        (rolled cfg env timestamp o p).rolloverAttempt + 1 == kRolloverAttemptFrequency &&
        (createdFile cfg env timestamp (rolled cfg env timestamp o p)
          (checkNeedRollLogFiles cfg env timestamp o p).2).isSome) := by
    unfold headerLength headerIf
    rw [hstart]
    rfl
  dsimp only at hprepare
  suffices hheaded : HeadedBy (headerLength cfg env timestamp o p) (rolled cfg env timestamp o p) o.file
      (prepare cfg env timestamp o p) from ⟨hheaded.raised, hheaded.stays, hheaded.opened, hheaded.failed⟩
  rw [hprepare, hheader]
  have hsame := @file_rolled cfg env o p timestamp
  generalize rolled cfg env timestamp o p = o₀ at *
  generalize reopenHistory cfg env timestamp o₀ = o₁ at *
  cases hreopened with
  | skipped hreopened =>
    rcases Option.eq_none_or_eq_some o₀.file with hfile | ⟨h, hfile⟩
    · have hnone : o₀.file.isNone = true := Option.isNone_iff_eq_none.mpr hfile
      rw [if_pos hnone, hnone, hreopened hfile]
      exact makeFile_headedBy hbound hfile
    · have hopen : o₀.file.isNone = false := by rw [hfile]; rfl
      rw [if_neg (by rw [hopen]; exact Bool.false_ne_true), hopen]
      exact headedBy_open hbound ⟨rfl, rfl, rfl, rfl⟩ hsame
        fun hnone => absurd (hfile.symm.trans hnone) (Option.some_ne_none h)
  | failed l rs paths hfile hpolicy hinit _ hlist hreopened =>
    -- The list and the files that were tried do not decide which file is made.
    let o₂ : LogFileObject := { o₀ with fileList := l, retired := o₀.retired ++ rs, opens := o₀.opens ++ paths }
    have hcreated :=
      @createdFile_congr cfg env o₀ o₂ rfl rfl rfl rfl timestamp (checkNeedRollLogFiles cfg env timestamp o p).2
    have hmade :=
      @makeFile_headedBy cfg env o₂ (checkNeedRollLogFiles cfg env timestamp o p).2 timestamp o.file hbound hfile
    have hnone : o₀.file.isNone = true := Option.isNone_iff_eq_none.mpr hfile
    rw [hcreated] at hmade
    rw [if_pos hnone, hnone, hreopened, Option.isNone_none, Bool.and_self, Bool.true_and]
    exact hmade.of_same ⟨rfl, rfl, rfl, rfl⟩ rfl
  | success l rs e inode isNew hfile hpolicy hinit hnewest hopen hlist =>
    have hclosed : o₀.file.isSome → False := fun hsome => absurd hsome (by rw [hfile]; exact Bool.false_ne_true)
    rw [reopenedFile_eq cfg env hpolicy hinit hnewest hopen, Option.isNone_some, Bool.and_false]
    exact headedBy_open hbound ⟨rfl, rfl, rfl, rfl⟩ (fun hsome => (hclosed hsome).elim) fun _ => rfl

/-! ### The message -/

/-- The object behind a message that has been written and counted. -/
def withMessage (env : Env) (message : Text) (o : LogFileObject) : LogFileObject :=
  countBytes message.length (appendChunk env (.message message) o)

/-- A message that is written is counted too. -/
def counts (cfg : Config) (env : Env) (p : Process) : Bool := !p.stopWriting && !(cfg.stopLoggingIfFullDisk && env.diskFull)

/-- The file is flushed behind the message. -/
def flushes (env : Env) (forceFlush : Bool) (message : Text) (o : LogFileObject) : Bool :=
  forceFlush || decide ((withMessage env message o).bytesSinceFlush ≥ 1000000) || decide (env.now ≥ o.nextFlushTime)

theorem writeMessage_eq {force : Bool} {message : Text} (h : counts cfg env p = true) :
    (writeMessage cfg env force message o p).1 =
      if flushes env force message o then dropLogMemory cfg (flush cfg env.now (withMessage env message o))
      else withMessage env message o := by
  unfold counts at h
  rw [Bool.and_eq_true, Bool.not_eq_true', Bool.not_eq_true', Bool.and_eq_false_iff] at h
  have hroom : ¬(cfg.stopLoggingIfFullDisk = true ∧ env.diskFull = true) := by
    rintro ⟨hstop, hfull⟩
    rcases h.2 with h | h
    · exact Bool.false_ne_true (h.symm.trans hstop)
    · exact Bool.false_ne_true (h.symm.trans hfull)
  have hflushes : flushes env force message o = true ↔ force = true ∨
      (withMessage env message o).bytesSinceFlush ≥ 1000000 ∨ env.now ≥ (withMessage env message o).nextFlushTime := by
    unfold flushes
    rw [Bool.or_eq_true, Bool.or_eq_true, decide_eq_true_eq, decide_eq_true_eq, or_assoc]
    rfl
  unfold writeMessage
  rw [if_neg (by rw [h.1]; exact Bool.false_ne_true)]
  dsimp only
  rw [if_neg hroom]
  by_cases hdue : flushes env force message o = true
  · have hcond := hflushes.mp hdue
    unfold withMessage at hcond ⊢
    rw [if_pos hdue, if_pos hcond]
  · have hcond := mt hflushes.mpr hdue
    unfold withMessage at hcond ⊢
    rw [if_neg hdue, if_neg hcond]

/-- A message that is not counted leaves the counters alone. -/
theorem writeMessage_same {force : Bool} {message : Text} (h : counts cfg env p = false) :
    SameCounts o (writeMessage cfg env force message o p).1 := by
  unfold writeMessage
  cases hstop : p.stopWriting with
  | true => exact ⟨rfl, rfl, rfl, rfl⟩
  | false =>
    unfold counts at h
    rw [hstop, Bool.not_false, Bool.true_and, Bool.not_eq_false', Bool.and_eq_true] at h
    rw [if_neg Bool.false_ne_true]
    dsimp only
    rw [if_pos h]
    exact ⟨rfl, rfl, rfl, rfl⟩

end

end Glog.LogFile
