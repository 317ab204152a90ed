import Glog.LogFile.Steps
import Glog.Run.Guarded

/-! # What a `Write` does

Which file a `Write` goes on with, what becomes of the files that it finds, and the runs of one object. An
operation is a step of a run; the variables of the process are those that the operation finds, since other log
file objects change them too. -/

namespace Glog.LogFile

section
variable (cfg : Config) (env : Env)

/-! ### The file -/

/-- The file that a `Write` opens: the history file, or one that it creates. -/
def opensFile (timestamp : Int) (o : LogFileObject) (p : Process) : Option (Nat × Bool) :=
  let need := checkNeedRollLogFiles cfg env timestamp o p
  if o.file.isSome ∧ need.1 = false then none
  else
    (reopenedFile cfg env o).or
      (if need.1 = true ∨ o.rolloverAttempt + 1 = kRolloverAttemptFrequency then
        createdFile cfg env timestamp o need.2 else none)

theorem reopenedFile_rollIfNeeded (need : Bool) (o : LogFileObject) :
    reopenedFile cfg env (rollIfNeeded need o) = reopenedFile cfg env o := by
  unfold reopenedFile
  rw [newestHistory_rollIfNeeded]
  cases need <;> rfl

/-- What `prepare` does: it goes on with the open file, or reopens a history file, or behind that makes a file. -/
inductive Prepared (timestamp : Int) (o : LogFileObject) (p : Process) : Prop
  | stays (h : Handle) (hfile : o.file = some h) (hneed : (checkNeedRollLogFiles cfg env timestamp o p).1 = false)
      (heq : prepare cfg env timestamp o p = (true, o, (checkNeedRollLogFiles cfg env timestamp o p).2))
  | reopens (rolled : LogFileObject) (hrolled : rolled = rollIfNeeded (checkNeedRollLogFiles cfg env timestamp o p).1 o)
      (hfile : rolled.file = none) (l : List Filetime) (rs : List Retired) (path : Text) (inode : Nat) (isNew : Bool)
      (hlist : rolled.initialized = false ∧
        checkHistoryFileNum cfg env rolled = { rolled with fileList := l, retired := rolled.retired ++ rs })
      (hopens : opensFile cfg env timestamp o p = some (inode, isNew))
      (heq : prepare cfg env timestamp o p =
        (true,
          { rolled with
            fileList := l
            retired := rolled.retired ++ rs
            file := some ⟨path, inode, isNew, env.pid, timestamp, []⟩
            opens := rolled.opens ++ [path]
            initialized := true },
          (checkNeedRollLogFiles cfg env timestamp o p).2))
  | makes (rolled : LogFileObject) (hrolled : rolled = rollIfNeeded (checkNeedRollLogFiles cfg env timestamp o p).1 o)
      (hfile : rolled.file = none) (l : List Filetime) (rs : List Retired) (paths : List Text)
      (hlist : l = rolled.fileList ∧ rs = [] ∨ rolled.initialized = false ∧
        checkHistoryFileNum cfg env rolled = { rolled with fileList := l, retired := rolled.retired ++ rs })
      (hreopened : reopenedFile cfg env o = none)
      (hopens : opensFile cfg env timestamp o p = if rolled.rolloverAttempt + 1 = kRolloverAttemptFrequency then
        createdFile cfg env timestamp rolled (checkNeedRollLogFiles cfg env timestamp o p).2 else none)
      (heq : prepare cfg env timestamp o p = makeFile cfg env timestamp
        { rolled with fileList := l, retired := rolled.retired ++ rs, opens := rolled.opens ++ paths }
        (checkNeedRollLogFiles cfg env timestamp o p).2)

/-- The file that is opened, seen from behind the rolling. -/
theorem opensFile_of_rolled {need : Bool} {timestamp : Int} {o : LogFileObject} {p : Process}
    (hneed : (checkNeedRollLogFiles cfg env timestamp o p).1 = need) (hfile : (rollIfNeeded need o).file = none) :
    opensFile cfg env timestamp o p = (reopenedFile cfg env (rollIfNeeded need o)).or
      (if (rollIfNeeded need o).rolloverAttempt + 1 = kRolloverAttemptFrequency then
        createdFile cfg env timestamp (rollIfNeeded need o) (checkNeedRollLogFiles cfg env timestamp o p).2 else none) := by
  rw [reopenedFile_rollIfNeeded]
  unfold opensFile
  dsimp only
  rw [hneed]
  cases need with
  | true =>
    have hdue : (rollIfNeeded true o).rolloverAttempt + 1 = kRolloverAttemptFrequency := rfl
    rw [if_neg (fun h => Bool.false_ne_true h.2.symm), if_pos (Or.inl rfl), if_pos hdue]
    congr 1
    exact (createdFile_congr cfg env (by rfl) (by rfl) (by rfl) (by rfl) timestamp _).symm
  | false =>
    change o.file = none at hfile
    simp only [hfile, Option.isSome_none, Bool.false_eq_true, false_and, if_false, false_or]
    rfl

theorem prepare_prepared (timestamp : Int) (o : LogFileObject) (p : Process) : Prepared cfg env timestamp o p := by
  generalize hneed : (checkNeedRollLogFiles cfg env timestamp o p).1 = need
  have hprepare : prepare cfg env timestamp o p =
      (let o' := reopenHistory cfg env timestamp (rollIfNeeded need o)
      if o'.file.isNone then makeFile cfg env timestamp o' (checkNeedRollLogFiles cfg env timestamp o p).2
      else (true, o', (checkNeedRollLogFiles cfg env timestamp o p).2)) := by
    rw [← hneed]
    rfl
  dsimp only at hprepare
  cases hrolledFile : (rollIfNeeded need o).file with
  | some h =>
    cases need with
    | true => cases hrolledFile
    | false =>
      have hskipped : reopenHistory cfg env timestamp o = o := by
        rw [reopenHistory, if_neg]
        rintro ⟨hnone, -⟩
        rw [Option.isNone_iff_eq_none] at hnone
        exact nomatch hnone.symm.trans hrolledFile
      refine .stays h hrolledFile hneed ?_
      change o.file = some h at hrolledFile
      rw [hprepare]
      change (if (reopenHistory cfg env timestamp o).file.isNone then _
        else (true, reopenHistory cfg env timestamp o, _)) = _
      rw [hskipped, hrolledFile]
      rfl
  | none =>
    have hopens := opensFile_of_rolled cfg env hneed hrolledFile
    have hreopened := reopenHistory_reopened cfg env timestamp (rollIfNeeded need o)
    have hmakes : ∀ o', o'.file = none → reopenHistory cfg env timestamp (rollIfNeeded need o) = o' →
        prepare cfg env timestamp o p = makeFile cfg env timestamp o' (checkNeedRollLogFiles cfg env timestamp o p).2 := by
      rintro o' hfile rfl
      rw [hprepare, if_pos (Option.isNone_iff_eq_none.mpr hfile)]
    have hrolled : rollIfNeeded need o = rollIfNeeded (checkNeedRollLogFiles cfg env timestamp o p).1 o := by rw [hneed]
    generalize hresult : reopenHistory cfg env timestamp (rollIfNeeded need o) = o' at hreopened hmakes hprepare
    have hsame := reopenedFile_rollIfNeeded cfg env need o
    generalize rollIfNeeded need o = rolled at *
    cases hreopened with
    | skipped hreopened =>
      have hnone : reopenedFile cfg env o = none := by rw [← hsame, hreopened hrolledFile]
      rw [hreopened hrolledFile, Option.none_or] at hopens
      refine .makes o' hrolled hrolledFile o'.fileList [] [] (Or.inl ⟨rfl, rfl⟩) hnone hopens ?_
      rw [hmakes o' hrolledFile rfl, List.append_nil, List.append_nil]
    | failed l rs paths _ _ hinit _ hlist hreopened =>
      have hnone : reopenedFile cfg env o = none := by rw [← hsame, hreopened]
      rw [hreopened, Option.none_or] at hopens
      exact .makes rolled hrolled hrolledFile l rs paths (Or.inr ⟨hinit, hlist⟩) hnone hopens (hmakes _ hrolledFile rfl)
    | success l rs e inode isNew _ hpolicy hinit hnewest hopen hlist =>
      rw [reopenedFile_eq cfg env hpolicy hinit hnewest hopen, Option.some_or] at hopens
      exact .reopens rolled hrolled hrolledFile l rs e.name inode isNew ⟨hinit, hlist⟩ hopens hprepare

theorem writeHeader_closed (tm : Tm) (o : LogFileObject) : (writeHeader cfg env tm o).closed = o.closed := by
  unfold writeHeader
  split <;> rfl

theorem makeFile_closed (timestamp : Int) (o : LogFileObject) (p : Process) :
    (makeFile cfg env timestamp o p).2.1.closed = o.closed := by
  rcases makeFile_cases cfg env timestamp o p with ⟨-, heq⟩ | ⟨-, made, o', p', -, hattempt, heq⟩
  · rw [heq]
  · rw [heq]
    obtain ⟨l, rs, hpruned⟩ := pruned_eq cfg env timestamp o
    rw [hpruned] at hattempt
    cases hattempt with
    | failed base paths _ => rfl
    | success base paths path name inode isNew _ => exact writeHeader_closed cfg env _ _

theorem prepare_closed (timestamp : Int) (o : LogFileObject) (p : Process) : (prepare cfg env timestamp o p).2.1.closed =
    (rollIfNeeded (checkNeedRollLogFiles cfg env timestamp o p).1 o).closed := by
  cases prepare_prepared cfg env timestamp o p with
  | stays h hfile hneed heq =>
    rw [heq, hneed]
    rfl
  | reopens rolled hrolled hfile l rs path inode isNew _ _ heq => rw [heq, ← hrolled]
  | makes rolled hrolled hfile l rs paths _ _ _ heq => rw [heq, makeFile_closed, ← hrolled]

/-- The same file, to which something may have been written. -/
def Grown (h h' : Handle) : Prop := ∃ l, h' = { h with written := h.written ++ l }

theorem grown_refl (h : Handle) : Grown h h := ⟨[], by rw [List.append_nil]⟩

theorem Grown.trans {h₁ h₂ h₃ : Handle} (h : Grown h₁ h₂) (h' : Grown h₂ h₃) : Grown h₁ h₃ := by
  obtain ⟨l, rfl⟩ := h
  obtain ⟨l', rfl⟩ := h'
  exact ⟨l ++ l', by rw [List.append_assoc]⟩

theorem appendChunk_grown {c : Chunk} {o : LogFileObject} {h' : Handle} (hfile : (appendChunk env c o).file = some h') :
    ∃ h, o.file = some h ∧ Grown h h' := by
  obtain ⟨h, hold, rfl⟩ := Option.map_eq_some_iff.mp hfile
  exact ⟨h, hold, [c.take (env.taken c)], rfl⟩

theorem appendChunk_isSome {c : Chunk} {o : LogFileObject} (hfile : o.file.isSome) : (appendChunk env c o).file.isSome := by
  rwa [appendChunk, Option.isSome_map]

theorem writeHeader_grown {tm : Tm} {o : LogFileObject} {h' : Handle} (hfile : (writeHeader cfg env tm o).file = some h') :
    ∃ h, o.file = some h ∧ Grown h h' := by
  unfold writeHeader at hfile
  split at hfile
  · generalize fileHeader cfg env o.startTime tm = header at hfile
    exact appendChunk_grown env hfile
  · exact ⟨h', hfile, grown_refl h'⟩

/-- The file that is open after `makeFile` is the one that it creates. -/
theorem makeFile_grown {timestamp : Int} {o : LogFileObject} {p : Process} {h' : Handle} (hnone : o.file = none)
    (hfile : (makeFile cfg env timestamp o p).2.1.file = some h') : o.rolloverAttempt + 1 = kRolloverAttemptFrequency ∧
      ∃ path inode isNew, createdFile cfg env timestamp o p = some (inode, isNew) ∧
        Grown ⟨path, inode, isNew, env.pid, timestamp, []⟩ h' := by
  rcases makeFile_cases cfg env timestamp o p with ⟨-, heq⟩ | ⟨hdue, made, o', p', hmade, hattempt, heq⟩
  · rw [heq] at hfile
    exact nomatch hnone.symm.trans hfile
  · refine ⟨hdue, ?_⟩
    rw [heq] at hfile
    obtain ⟨l, rs, hpruned⟩ := pruned_eq cfg env timestamp o
    rw [hpruned] at hattempt
    cases hattempt with
    | failed base paths _ => exact nomatch hnone.symm.trans hfile
    | success base paths path name inode isNew _ =>
      obtain ⟨h, hopened, hgrown⟩ := writeHeader_grown cfg env hfile
      cases hopened
      exact ⟨path, inode, isNew, hmade, hgrown⟩

/-- The file that is open after `prepare` is the one that was open and stays, or the one that it opens. -/
theorem prepare_grown {timestamp : Int} {o : LogFileObject} {p : Process} {h' : Handle}
    (hfile : (prepare cfg env timestamp o p).2.1.file = some h') :
    (o.file = some h' ∧ (checkNeedRollLogFiles cfg env timestamp o p).1 = false) ∨
      ∃ path inode isNew, opensFile cfg env timestamp o p = some (inode, isNew) ∧
        Grown ⟨path, inode, isNew, env.pid, timestamp, []⟩ h' := by
  cases prepare_prepared cfg env timestamp o p with
  | stays h hold hneed heq =>
    rw [heq] at hfile
    exact Or.inl ⟨hfile, hneed⟩
  | reopens rolled _ _ l rs path inode isNew _ hopens heq =>
    rw [heq] at hfile
    cases hfile
    exact Or.inr ⟨path, inode, isNew, hopens, grown_refl _⟩
  | makes rolled _ hnone l rs paths _ _ hopens heq =>
    rw [heq] at hfile
    obtain ⟨hdue, path, inode, isNew, hcreated, hgrown⟩ := makeFile_grown cfg env (by exact hnone) hfile
    refine Or.inr ⟨path, inode, isNew, ?_, hgrown⟩
    rw [hopens, if_pos hdue, ← hcreated]
    exact (createdFile_congr cfg env (by rfl) (by rfl) (by rfl) (by rfl) timestamp _).symm

/-- A `Write` that gets as far as to write its message. -/
def Writes (timestamp : Int) (o : LogFileObject) (p : Process) : Prop :=
  ¬ (o.baseFilenameSelected = true ∧ o.baseFilename = []) ∧ (prepare cfg env timestamp o p).1 = true

theorem writeHeader_isSome {tm : Tm} {o : LogFileObject} (hfile : o.file.isSome) :
    (writeHeader cfg env tm o).file.isSome := by
  unfold writeHeader
  split
  · generalize fileHeader cfg env o.startTime tm = header
    exact appendChunk_isSome env hfile
  · exact hfile

/-- A `Write` that gets to its message has an open file. -/
theorem prepare_isSome {timestamp : Int} {o : LogFileObject} {p : Process}
    (hprepared : (prepare cfg env timestamp o p).1 = true) :
    (prepare cfg env timestamp o p).2.1.file.isSome := by
  cases prepare_prepared cfg env timestamp o p with
  | stays h hold hneed heq =>
    rw [heq, hold]
    rfl
  | reopens rolled _ _ l rs path inode isNew _ hopens heq =>
    rw [heq]
    rfl
  | makes rolled _ hnone l rs paths _ _ hopens heq =>
    rw [heq] at hprepared ⊢
    generalize LogFileObject.mk .. = made at hprepared ⊢
    rcases makeFile_cases cfg env timestamp made (checkNeedRollLogFiles cfg env timestamp o p).2
      with ⟨-, heq⟩ | ⟨-, f, o', p', -, hattempt, heq⟩
    · rw [heq] at hprepared
      cases hprepared
    · rw [heq] at hprepared ⊢
      cases hattempt with
      | failed base paths _ => cases hprepared
      | success base paths path name inode isNew _ => exact writeHeader_isSome cfg env rfl

/-! ### Where every file can be opened -/

def AllOpen (env : Env) : Prop := ∀ path excl, ∃ inode isNew, env.openFile path excl = .success inode isNew

/-- A base name that is set is not empty, and there is a directory for the default name. -/
def HasDestination (o : LogFileObject) : Prop :=
  if o.baseFilenameSelected then o.baseFilename ≠ [] else cfg.loggingDirectories ≠ []

theorem createLogfile_success (hopen : AllOpen env) (timePid : Text) (timestamp : Int) (o : LogFileObject) (p : Process) :
    (createLogfile cfg env timePid timestamp o p).1 = true := by
  unfold createLogfile createLogfileInternal
  dsimp only
  obtain ⟨inode, isNew, heq⟩ :=
    hopen (getSuitableFileName cfg env (logfileName cfg timePid o) p).1 cfg.timestampInLogfileName
  rw [heq]
  rfl

theorem create_success (hopen : AllOpen env) (timestamp : Int) {o : LogFileObject} (p : Process)
    (hdest : HasDestination cfg o) :
    (create cfg env timestamp o p).1 = true := by
  unfold create HasDestination at *
  dsimp only
  split
  · exact createLogfile_success cfg env hopen _ timestamp o p
  · rename_i hbase
    rw [if_neg hbase] at hdest
    obtain ⟨dir, dirs, hdirs⟩ := List.exists_cons_of_ne_nil hdest
    rw [hdirs]
    unfold createDefaultLogfile
    dsimp only
    rw [if_pos (createLogfile_success cfg env hopen _ timestamp _ p)]
    exact createLogfile_success cfg env hopen _ timestamp _ p

/-- The attempt succeeds, and the file is the one that is created. -/
theorem makeFile_success (hopen : AllOpen env) (timestamp : Int) {o : LogFileObject} (p : Process)
    (hdest : HasDestination cfg o) (hattempt : o.rolloverAttempt + 1 = kRolloverAttemptFrequency) :
    ∃ f o' p', Attempt env timestamp (pruned cfg env timestamp o) (some f) o' ∧
      makeFile cfg env timestamp o p = (true, writeHeader cfg env (namingTime cfg timestamp) o', p') := by
  have hcreated := create_success cfg env hopen timestamp p hdest
  rw [(create_attempt cfg env timestamp o p).1] at hcreated
  rcases makeFile_cases cfg env timestamp o p with ⟨hnot, -⟩ | ⟨-, made, o', p', hmade, hattempted, heq⟩
  · exact absurd hattempt hnot
  · rw [hmade] at hcreated
    obtain ⟨f, rfl⟩ := Option.isSome_iff_exists.mp hcreated
    exact ⟨f, o', p', hattempted, heq⟩

/-! ### Closing and flushing -/

theorem files_closeFile (o : LogFileObject) : o.closeFile.files = o.files := by
  unfold LogFileObject.files LogFileObject.closeFile
  simp

@[simp] theorem flush_opens (now : Int) (o : LogFileObject) : (flush cfg now o).opens = o.opens := by
  unfold flush
  dsimp only
  split <;> rfl

@[simp] theorem flush_file (now : Int) (o : LogFileObject) : (flush cfg now o).file = o.file := by
  unfold flush
  dsimp only
  split <;> rfl

@[simp] theorem flush_fileLength (now : Int) (o : LogFileObject) : (flush cfg now o).fileLength = o.fileLength := by
  unfold flush
  dsimp only
  split <;> rfl

@[simp] theorem flush_closed (now : Int) (o : LogFileObject) : (flush cfg now o).closed = o.closed := by
  unfold flush
  dsimp only
  split <;> rfl

@[simp] theorem dropLogMemory_closed (o : LogFileObject) : (dropLogMemory cfg o).closed = o.closed := by
  unfold dropLogMemory
  split <;> rfl

@[simp] theorem dropLogMemory_file (o : LogFileObject) : (dropLogMemory cfg o).file = o.file := by
  unfold dropLogMemory
  split <;> rfl

@[simp] theorem dropLogMemory_fileLength (o : LogFileObject) : (dropLogMemory cfg o).fileLength = o.fileLength := by
  unfold dropLogMemory
  split <;> rfl

/-- A message goes to the open file, unless the disk is known to be full. -/
theorem writeMessage_cases (force : Bool) (message : Text) (o : LogFileObject) (p : Process) :
    (p.stopWriting = true ∧ (writeMessage cfg env force message o p).1 = o) ∨
    (p.stopWriting = false ∧
      (writeMessage cfg env force message o p).1.file = (appendChunk env (.message message) o).file ∧
      (writeMessage cfg env force message o p).1.closed = o.closed ∧
      ((writeMessage cfg env force message o p).1.fileLength = o.fileLength + message.length ∨
        (cfg.stopLoggingIfFullDisk = true ∧ env.diskFull = true) ∧
          (writeMessage cfg env force message o p).1.fileLength = o.fileLength)) := by
  unfold writeMessage
  cases hstop : p.stopWriting with
  | true => exact Or.inl ⟨rfl, rfl⟩
  | false =>
    refine Or.inr ⟨rfl, ?_⟩
    rw [if_neg Bool.false_ne_true]
    dsimp only
    split
    · rename_i hfull
      exact ⟨rfl, rfl, Or.inr ⟨hfull, rfl⟩⟩
    · split
      · simp only [dropLogMemory_file, dropLogMemory_closed, dropLogMemory_fileLength, flush_file, flush_closed,
          flush_fileLength]
        exact ⟨rfl, rfl, Or.inl rfl⟩
      · exact ⟨rfl, rfl, Or.inl rfl⟩

theorem writeMessage_grown {force : Bool} {message : Text} {o : LogFileObject} {p : Process} {h' : Handle}
    (hfile : (writeMessage cfg env force message o p).1.file = some h') : ∃ h, o.file = some h ∧ Grown h h' := by
  rcases writeMessage_cases cfg env force message o p with ⟨-, heq⟩ | ⟨-, heq, -⟩
  · rw [heq] at hfile
    exact ⟨h', hfile, grown_refl h'⟩
  · rw [heq] at hfile
    exact appendChunk_grown env hfile

theorem writeMessage_closed (force : Bool) (message : Text) (o : LogFileObject) (p : Process) :
    (writeMessage cfg env force message o p).1.closed = o.closed := by
  rcases writeMessage_cases cfg env force message o p with ⟨-, heq⟩ | ⟨-, -, heq, -⟩
  · rw [heq]
  · exact heq

theorem write_closed {force : Bool} {timestamp : Int} {message : Text} {o : LogFileObject} {p : Process}
    (hbase : ¬ (o.baseFilenameSelected ∧ o.baseFilename = [])) :
    (write cfg env force timestamp message o p).1.closed =
      (rollIfNeeded (checkNeedRollLogFiles cfg env timestamp o p).1 o).closed := by
  rw [write, if_neg hbase, ← prepare_closed]
  dsimp only
  split
  · exact writeMessage_closed cfg env force message _ _
  · rfl

theorem writeMessage_isSome {force : Bool} {message : Text} {o : LogFileObject} {p : Process} (hfile : o.file.isSome) :
    (writeMessage cfg env force message o p).1.file.isSome := by
  rcases writeMessage_cases cfg env force message o p with ⟨-, heq⟩ | ⟨-, heq, -⟩
  · rwa [heq]
  · rw [heq]
    exact appendChunk_isSome env hfile

/-- The file that is open after a `Write` of a message. -/
theorem write_file {force : Bool} {timestamp : Int} {message : Text} {o : LogFileObject} {p : Process}
    (hwrites : Writes cfg env timestamp o p) : ∃ h h', (prepare cfg env timestamp o p).2.1.file = some h ∧
      (write cfg env force timestamp message o p).1.file = some h' ∧ Grown h h' := by
  have hwrite : (write cfg env force timestamp message o p).1 =
      (writeMessage cfg env force message (prepare cfg env timestamp o p).2.1 (prepare cfg env timestamp o p).2.2).1 := by
    rw [write, if_neg hwrites.1]
    dsimp only
    rw [if_pos hwrites.2]
  have hsome : (writeMessage cfg env force message (prepare cfg env timestamp o p).2.1
      (prepare cfg env timestamp o p).2.2).1.file.isSome := writeMessage_isSome cfg env (prepare_isSome cfg env hwrites.2)
  obtain ⟨h', hfile⟩ := Option.isSome_iff_exists.mp hsome
  obtain ⟨h, hprepared, hgrown⟩ := writeMessage_grown cfg env hfile
  exact ⟨h, h', hprepared, hwrite ▸ hfile, hgrown⟩

/-- The file that is open behind a `Write` has been open before, and has grown, or is opened by it. -/
theorem write_open {force : Bool} {timestamp : Int} {message : Text} {o : LogFileObject} {p : Process} {h' : Handle}
    (hbase : ¬ (o.baseFilenameSelected ∧ o.baseFilename = []))
    (hfile : (write cfg env force timestamp message o p).1.file = some h') :
    (∃ h, o.file = some h ∧ (checkNeedRollLogFiles cfg env timestamp o p).1 = false ∧ Grown h h') ∨
      ∃ path inode isNew, opensFile cfg env timestamp o p = some (inode, isNew) ∧
        Grown ⟨path, inode, isNew, env.pid, timestamp, []⟩ h' := by
  have hgrown : ∃ h, (prepare cfg env timestamp o p).2.1.file = some h ∧ Grown h h' := by
    rw [write, if_neg hbase] at hfile
    dsimp only at hfile
    split at hfile
    · exact writeMessage_grown cfg env hfile
    · exact ⟨h', hfile, grown_refl h'⟩
  obtain ⟨h, hprepared, hgrown⟩ := hgrown
  rcases prepare_grown cfg env hprepared with ⟨hold, hneed⟩ | ⟨path, inode, isNew, hopens, hopened⟩
  · exact Or.inl ⟨h, hold, hneed, hgrown⟩
  · exact Or.inr ⟨path, inode, isNew, hopens, hopened.trans hgrown⟩

/-- The files after a `Write`: those that were there, the open one if it stays, and the one that is opened. -/
theorem write_files {force : Bool} {timestamp : Int} {message : Text} {o : LogFileObject} {p : Process} {h' : Handle}
    (hmem : h' ∈ (write cfg env force timestamp message o p).1.files) : h' ∈ o.files ∨
      ¬ (o.baseFilenameSelected ∧ o.baseFilename = []) ∧
        ((∃ h, o.file = some h ∧ (checkNeedRollLogFiles cfg env timestamp o p).1 = false ∧ Grown h h') ∨
          ∃ path inode isNew, opensFile cfg env timestamp o p = some (inode, isNew) ∧
            Grown ⟨path, inode, isNew, env.pid, timestamp, []⟩ h') := by
  by_cases hbase : o.baseFilenameSelected ∧ o.baseFilename = []
  · rw [write, if_pos hbase] at hmem
    exact Or.inl hmem
  · rcases List.mem_append.mp hmem with hclosed | hopen
    · left
      rw [write_closed cfg env hbase] at hclosed
      cases hneed : (checkNeedRollLogFiles cfg env timestamp o p).1 with
      | true =>
        rw [hneed] at hclosed
        exact hclosed
      | false =>
        rw [hneed] at hclosed
        exact List.mem_append_left _ hclosed
    · exact Or.inr ⟨hbase, write_open cfg env hbase (Option.mem_toList.mp hopen)⟩

/-! ### Runs of one object -/

inductive Op
  | write (env : Env) (p : Process) (forceFlush : Bool) (timestamp : Int) (message : Text)
  | flush (now : Int)
  | setBasename (basename : Text)
  | setExtension (ext : Text)
  | setSymlinkBasename (basename : Text)

/-- The variables of the process are those that a `Write` finds: other objects change them too. -/
def step (o : LogFileObject) : Op → LogFileObject
  | .write env p forceFlush timestamp message => (write cfg env forceFlush timestamp message o p).1
  | .flush now => flush cfg now o
  | .setBasename basename => setBasename basename o
  | .setExtension ext => setExtension ext o
  | .setSymlinkBasename basename => setSymlinkBasename basename o

end

/-! ### The flag for a full disk -/

section
variable {cfg : Config} {env : Env} {timestamp : Int} {o : LogFileObject} {p : Process}

theorem checkNeedRollLogFiles_stopWriting :
    (checkNeedRollLogFiles cfg env timestamp o p).2.stopWriting = p.stopWriting := by
  have hpid : (pidHasChanged env p).2.stopWriting = p.stopWriting := by
    unfold pidHasChanged
    split <;> rfl
  unfold checkNeedRollLogFiles
  split
  · rfl
  · rfl
  all_goals
    split
    · rfl
    · exact hpid

theorem createLogfile_stopWriting (timePid : Text) :
    (createLogfile cfg env timePid timestamp o p).2.2.stopWriting = p.stopWriting := by
  have hsuitable : ∀ origin, (getSuitableFileName cfg env origin p).2.stopWriting = p.stopWriting := by
    intro origin
    unfold getSuitableFileName
    split
    · rfl
    · split
      · split
        · rfl
        · split <;> rfl
      · rfl
  unfold createLogfile
  dsimp only
  split <;> exact hsuitable _

theorem createDefaultLogfile_stopWriting (timePid : Text) (dirs : List Text) : ∀ (o : LogFileObject) (p : Process),
    (createDefaultLogfile cfg env timePid timestamp o p dirs).2.2.stopWriting = p.stopWriting := by
  induction dirs with
  | nil => exact fun _ _ => rfl
  | cons dir dirs ih =>
    intro o p
    unfold createDefaultLogfile
    dsimp only
    split
    · exact createLogfile_stopWriting timePid
    · rw [ih]
      exact createLogfile_stopWriting timePid

theorem makeFile_stopWriting : (makeFile cfg env timestamp o p).2.2.stopWriting = p.stopWriting := by
  have hcreate : ∀ o, (create cfg env timestamp o p).2.2.stopWriting = p.stopWriting := by
    intro o
    unfold create
    dsimp only
    split
    · exact createLogfile_stopWriting _
    · exact createDefaultLogfile_stopWriting _ _ _ _
  unfold makeFile
  dsimp only
  split
  · rfl
  · split <;> exact hcreate _

theorem prepare_stopWriting : (prepare cfg env timestamp o p).2.2.stopWriting = p.stopWriting := by
  unfold prepare
  dsimp only
  split
  · rw [makeFile_stopWriting, checkNeedRollLogFiles_stopWriting]
  · exact checkNeedRollLogFiles_stopWriting

end

/-! ### A plain setting

No files are found, everything that is opened is new, and no period ends. -/

def plainTm (t : Int) : Tm := ⟨100, 0, 1 + t.toNat, 0, 0, 0⟩

def plainConfig : Config where
  policy := .day
  utcTime := false
  timestampInLogfileName := true
  maxLogSize := 1
  maxLogfileNum := 2
  logFileHeader := false
  stopLoggingIfFullDisk := false
  dropLogMemory := false
  logYearInPrefix := false
  logbufsecs := 30
  logbuflevel := 0
  localtime := plainTm
  gmtime := plainTm
  loggingDirectories := ["/tmp/".toList]
  programName := "prog".toList
  hostname := "host".toList
  userName := "user".toList
  applicationFingerprint := []

def plainEnv : Env where
  pid := 7
  now := 0
  utcOffset := 0
  listing := some []
  stat _ := none
  openFile _ _ := .success 1 true
  diskFull := false
  accepted _ := 0
  holdsBack := 0
  indeterminateTime := 0
  indeterminateCount := 0
  indeterminateTm := plainTm 0

def plainProcess : Process where
  mainThreadPid := 7
  stopWriting := false
  rollingFileNumber := 10

/-- The plain setting under the size policy, with a history file. -/
def historyConfig : Config := { plainConfig with policy := .size }

def historyEnv : Env :=
  { plainEnv with
    listing := some [⟨"prog.INFO.old".toList, false, some 5⟩]
    openFile := fun _ excl => if excl then .failed else .success 1 false }

/-- An object with the base name `a`. -/
def plainObject (cfg : Config) : LogFileObject := .new cfg .info (some ['a']) 0 (plainTm 0)

def plainWrite (timestamp : Int) (message : Text) : Op := .write plainEnv plainProcess false timestamp message

end Glog.LogFile
