import Glog.LogFile.Retention

/-! # The file that is created

Under which name a `Write` creates a file, and which files the history scan takes for those of an object. -/

namespace Glog.LogFile

/-- A base name for a new file: the one that is set, or the default one in one of the directories. -/
def IsBase (cfg : Config) (o : LogFileObject) (dirs : List Text) (base : Text) : Prop :=
  o.baseFilenameSelected = true ∧ base = o.baseFilename ∨
    o.baseFilenameSelected = false ∧ ∃ dir ∈ dirs, base = dir ++ '/' :: strippedFilename cfg o

/-- What becomes of an object that creates a file: the name that is recorded is the one before a number is added. -/
inductive Creation (cfg : Config) (env : Env) (timePid : Text) (timestamp : Int) (o : LogFileObject) (dirs : List Text) :
    LogFileObject → Prop
  | created (base : Text) (paths : List Text) (path name : Text) (inode : Nat) (isNew : Bool) (q : Process)
      (hbase : IsBase cfg o dirs base) (hname : name = logfileName cfg timePid { o with baseFilename := base })
      (hpath : path = (getSuitableFileName cfg env name q).1)
      (hopen : env.openFile path cfg.timestampInLogfileName = .success inode isNew) :
      Creation cfg env timePid timestamp o dirs
        { o with
          baseFilename := base
          file := some ⟨path, inode, cfg.timestampInLogfileName || isNew, env.pid, timestamp, []⟩
          opens := o.opens ++ (paths ++ [path])
          fileList := insertFile ⟨name, env.indeterminateTime, .created o.creations⟩ o.fileList
          creations := o.creations + 1 }

section
variable {cfg : Config} {env : Env} {timePid : Text} {timestamp : Int} {o : LogFileObject} {p : Process} {dirs : List Text}

theorem createLogfile_creation (hbase : IsBase cfg o dirs o.baseFilename)
    (h : (createLogfile cfg env timePid timestamp o p).1 = true) :
    Creation cfg env timePid timestamp o dirs (createLogfile cfg env timePid timestamp o p).2.1 := by
  generalize hname : logfileName cfg timePid o = name at *
  generalize hpath : (getSuitableFileName cfg env name p).1 = path at *
  unfold createLogfile createLogfileInternal at h ⊢
  dsimp only at h ⊢
  rw [hname, hpath] at h ⊢
  cases hopen : env.openFile path cfg.timestampInLogfileName with
  | success inode isNew =>
    exact .created o.baseFilename [] path name inode isNew p hbase hname.symm hpath.symm hopen
  | failed | lockFailed | noStream =>
    simp only [hopen] at h
    cases h

/-- A creation after attempts in other directories. -/
theorem Creation.after {o' : LogFileObject} {base : Text} {paths dirs' : List Text} (hbase : o.baseFilenameSelected = false)
    (hdirs : dirs ⊆ dirs')
    (h : Creation cfg env timePid timestamp { o with baseFilename := base, opens := o.opens ++ paths } dirs o') :
    Creation cfg env timePid timestamp o dirs' o' := by
  cases h with
  | created base' paths' path name inode isNew q hbase' hname hpath hopen =>
    rcases hbase' with ⟨hselected, -⟩ | ⟨-, dir, hmem, heq⟩
    · cases hbase.symm.trans hselected
    · have hcreation : Creation cfg env timePid timestamp o dirs'
          { o with
            baseFilename := base'
            file := some ⟨path, inode, cfg.timestampInLogfileName || isNew, env.pid, timestamp, []⟩
            opens := o.opens ++ (paths ++ paths' ++ [path])
            fileList := insertFile ⟨name, env.indeterminateTime, .created o.creations⟩ o.fileList
            creations := o.creations + 1 } :=
        .created base' (paths ++ paths') path name inode isNew q (Or.inr ⟨hbase, dir, hdirs hmem, heq⟩) hname hpath hopen
      rw [List.append_assoc paths, ← List.append_assoc o.opens] at hcreation
      exact hcreation

theorem createDefaultLogfile_creation (hbase : o.baseFilenameSelected = false)
    (h : (createDefaultLogfile cfg env timePid timestamp o p dirs).1 = true) :
    Creation cfg env timePid timestamp o dirs (createDefaultLogfile cfg env timePid timestamp o p dirs).2.1 := by
  induction dirs generalizing o p with
  | nil => cases h
  | cons dir dirs ih =>
    obtain ⟨hmade, hattempt⟩ := createLogfile_attempt cfg env timePid timestamp
      { o with baseFilename := dir ++ '/' :: strippedFilename cfg o } p
    have hfirst := @createLogfile_creation cfg env timePid timestamp
      { o with baseFilename := dir ++ '/' :: strippedFilename cfg o } p [dir]
      (Or.inr ⟨hbase, dir, List.mem_singleton_self dir, rfl⟩)
    unfold createDefaultLogfile at h ⊢
    dsimp only at h ⊢
    generalize createLogfile cfg env timePid timestamp
      { o with baseFilename := dir ++ '/' :: strippedFilename cfg o } p = r at *
    generalize createdLogfile cfg env timePid { o with baseFilename := dir ++ '/' :: strippedFilename cfg o } p = made at *
    obtain ⟨b, o₁, p₁⟩ := r
    cases b with
    | true =>
      have hcreation := hfirst rfl
      rw [← List.append_nil o.opens] at hcreation
      exact hcreation.after hbase fun d hd => List.mem_singleton.mp hd ▸ List.mem_cons_self
    | false =>
      rw [if_neg Bool.false_ne_true] at h ⊢
      cases hattempt with
      | success => cases hmade
      | failed base paths _ =>
        have hrest := @ih { o with baseFilename := base, opens := o.opens ++ paths } p₁ hbase h
        exact hrest.after hbase (List.subset_cons_self dir dirs)

theorem create_creation (h : (create cfg env timestamp o p).1 = true) :
    Creation cfg env (timePidString cfg.policy (namingTime cfg timestamp) p.mainThreadPid) timestamp o
      cfg.loggingDirectories
      (create cfg env timestamp o p).2.1 := by
  unfold create at h ⊢
  cases hbase : o.baseFilenameSelected with
  | true =>
    simp only [hbase, if_true] at h ⊢
    exact createLogfile_creation (Or.inl ⟨hbase, rfl⟩) h
  | false =>
    simp only [hbase, Bool.false_eq_true, if_false] at h ⊢
    exact createDefaultLogfile_creation hbase h

theorem makeFile_creation (h : (makeFile cfg env timestamp o p).1 = true) : ∃ o',
    Creation cfg env (timePidString cfg.policy (namingTime cfg timestamp) p.mainThreadPid) timestamp
      (pruned cfg env timestamp o) cfg.loggingDirectories o' ∧
    (makeFile cfg env timestamp o p).2.1 = writeHeader cfg env (namingTime cfg timestamp) o' := by
  by_cases hdue : o.rolloverAttempt + 1 = kRolloverAttemptFrequency
  · rw [makeFile_due cfg env hdue] at h ⊢
    dsimp only at h ⊢
    cases hcreated : (create cfg env timestamp (pruned cfg env timestamp o) p).1 with
    | true => exact ⟨_, create_creation hcreated, rfl⟩
    | false =>
      rw [hcreated, if_neg Bool.false_ne_true] at h
      cases hcreated.symm.trans h
  · rw [makeFile, if_pos hdue] at h
    cases h

/-- An attempt that fails creates nothing. -/
theorem makeFile_creations (h : (makeFile cfg env timestamp o p).1 = false) :
    (makeFile cfg env timestamp o p).2.1.creations = o.creations := by
  rcases makeFile_cases cfg env timestamp o p with ⟨-, heq⟩ | ⟨-, made, o', p', -, hattempt, heq⟩
  · rw [heq]
  · rw [heq] at h ⊢
    obtain ⟨l, rs, hpruned⟩ := pruned_eq cfg env timestamp o
    rw [hpruned] at hattempt
    cases hattempt with
    | failed base paths _ => rfl
    | success base paths path name inode isNew _ => cases h

/-- What a message changes. -/
theorem writeMessage_frame (force : Bool) (message : Text) : ∃ file buffered stores bytes dropped length next,
    (writeMessage cfg env force message o p).1 =
      { o with
        file := file
        buffered := buffered
        stores := stores
        bytesSinceFlush := bytes
        droppedMemLength := dropped
        fileLength := length
        nextFlushTime := next } := by
  have hflush : ∀ o' : LogFileObject, ∃ buffered stores bytes next, flush cfg env.now o' =
      { o' with buffered := buffered, stores := stores, bytesSinceFlush := bytes, nextFlushTime := next } := by
    intro o'
    unfold flush
    dsimp only
    split
    · exact ⟨_, _, _, _, rfl⟩
    · exact ⟨o'.buffered, o'.stores, o'.bytesSinceFlush, _, rfl⟩
  have hdrop : ∀ o' : LogFileObject, ∃ dropped, dropLogMemory cfg o' = { o' with droppedMemLength := dropped } := by
    intro o'
    unfold dropLogMemory
    split
    · exact ⟨_, rfl⟩
    · exact ⟨o'.droppedMemLength, rfl⟩
  unfold writeMessage
  split
  · exact ⟨o.file, o.buffered, o.stores, o.bytesSinceFlush, o.droppedMemLength, o.fileLength, o.nextFlushTime, rfl⟩
  · dsimp only
    split
    · exact ⟨_, _, _, o.bytesSinceFlush, o.droppedMemLength, o.fileLength, o.nextFlushTime, rfl⟩
    · split
      · obtain ⟨buffered, stores, bytes, next, hflushed⟩ :=
          hflush (countBytes message.length (appendChunk env (.message message) o))
        rw [hflushed]
        obtain ⟨dropped, hdropped⟩ := hdrop _
        rw [hdropped]
        exact ⟨_, buffered, stores, bytes, dropped, _, next, rfl⟩
      · exact ⟨_, _, _, _, o.droppedMemLength, _, o.nextFlushTime, rfl⟩

theorem writeHeader_frame (tm : Tm) : ∃ file buffered stores bytes length, writeHeader cfg env tm o =
    { o with file := file, buffered := buffered, stores := stores, bytesSinceFlush := bytes, fileLength := length } := by
  unfold writeHeader
  split
  · exact ⟨_, _, _, _, _, rfl⟩
  · exact ⟨o.file, o.buffered, o.stores, o.bytesSinceFlush, o.fileLength, rfl⟩

/-- The object behind a `Write` is the prepared one, but for the file and the counters. -/
theorem write_frame (force : Bool) (message : Text) (hbase : ¬ (o.baseFilenameSelected = true ∧ o.baseFilename = [])) :
    ∃ file buffered stores bytes dropped length next, (write cfg env force timestamp message o p).1 =
      { (prepare cfg env timestamp o p).2.1 with
        file := file
        buffered := buffered
        stores := stores
        bytesSinceFlush := bytes
        droppedMemLength := dropped
        fileLength := length
        nextFlushTime := next } := by
  rw [write, if_neg hbase]
  dsimp only
  split
  · exact writeMessage_frame force message
  · exact ⟨_, _, _, _, _, _, _, rfl⟩

/-- What the names of the files depend on. -/
structure SameName (o o' : LogFileObject) : Prop where
  severity : o'.severity = o.severity
  baseFilenameSelected : o'.baseFilenameSelected = o.baseFilenameSelected
  baseFilename : o'.baseFilename = o.baseFilename
  filenameExtension : o'.filenameExtension = o.filenameExtension

theorem sameName_rollIfNeeded (need : Bool) : SameName o (rollIfNeeded need o) := by
  cases need <;> exact ⟨rfl, rfl, rfl, rfl⟩

/-- Only the preparation creates a file. -/
theorem prepare_creation (h : (prepare cfg env timestamp o p).2.1.creations ≠ o.creations) :
    (prepare cfg env timestamp o p).1 = true ∧ ∃ o₁ o', SameName o o₁ ∧
      Creation cfg env
        (timePidString cfg.policy (namingTime cfg timestamp) (checkNeedRollLogFiles cfg env timestamp o p).2.mainThreadPid)
        timestamp o₁ cfg.loggingDirectories o' ∧
      (prepare cfg env timestamp o p).2.1 = writeHeader cfg env (namingTime cfg timestamp) o' := by
  have hrolled : ∀ need, (rollIfNeeded need o).creations = o.creations := fun need => by cases need <;> rfl
  cases prepare_prepared cfg env timestamp o p with
  | stays _ _ _ heq =>
    rw [heq] at h
    exact absurd rfl h
  | reopens rolled heqRolled _ _ _ _ _ _ _ _ heq =>
    rw [heq] at h
    refine absurd ?_ h
    rw [heqRolled]
    exact hrolled _
  | makes rolled heqRolled _ l rs paths _ _ _ heq =>
    have hname := @sameName_rollIfNeeded o (checkNeedRollLogFiles cfg env timestamp o p).1
    rw [← heqRolled] at hname
    have hmade : (prepare cfg env timestamp o p).1 = true := by
      rw [heq] at h ⊢
      refine (Bool.not_eq_false _).mp fun hfailed => h ?_
      rw [makeFile_creations hfailed, heqRolled]
      exact hrolled _
    refine ⟨hmade, ?_⟩
    rw [heq] at hmade ⊢
    obtain ⟨o', hcreation, hobject⟩ := makeFile_creation hmade
    obtain ⟨l', rs', hpruned⟩ := pruned_eq cfg env timestamp
      { rolled with fileList := l, retired := rolled.retired ++ rs, opens := rolled.opens ++ paths }
    refine ⟨_, o', ?_, hcreation, hobject⟩
    rw [hpruned]
    exact { hname with }

/-- The path of a file that is created by a `Write`. -/
theorem write_creation {force : Bool} {message : Text}
    (h : (write cfg env force timestamp message o p).1.creations ≠ o.creations) :
    ∃ timePid q h', IsBase cfg o cfg.loggingDirectories (write cfg env force timestamp message o p).1.baseFilename ∧
      (write cfg env force timestamp message o p).1.file = some h' ∧
      h'.path = (getSuitableFileName cfg env (logfileName cfg timePid
        { o with baseFilename := (write cfg env force timestamp message o p).1.baseFilename }) q).1 := by
  have hbase : ¬ (o.baseFilenameSelected = true ∧ o.baseFilename = []) := by
    intro hempty
    rw [write, if_pos hempty] at h
    exact h rfl
  obtain ⟨_, _, _, _, _, _, _, hframe⟩ := @write_frame cfg env timestamp o p force message hbase
  have hcreations := congrArg LogFileObject.creations hframe
  have hbasename := congrArg LogFileObject.baseFilename hframe
  dsimp only at hcreations hbasename
  rw [hcreations] at h
  obtain ⟨hmade, o₁, o', ⟨hseverity, hselected, hold, hextension⟩, hcreation, hobject⟩ := prepare_creation h
  obtain ⟨h₁, h', hprepared, hfile, hgrown⟩ := @write_file cfg env force timestamp message o p ⟨hbase, hmade⟩
  rw [hobject] at hprepared
  obtain ⟨h₀, hopened, hgrown₀⟩ := writeHeader_grown cfg env hprepared
  obtain ⟨_, _, _, _, _, hheader⟩ := @writeHeader_frame cfg env o' (namingTime cfg timestamp)
  rw [hbasename, hobject, hheader]
  dsimp only
  cases hcreation with
  | created base paths' path name inode isNew q hisBase hname hpath hopen =>
    cases hopened
    obtain ⟨_, rfl⟩ := hgrown₀.trans hgrown
    refine ⟨timePidString cfg.policy (namingTime cfg timestamp)
      (checkNeedRollLogFiles cfg env timestamp o p).2.mainThreadPid, q, _, ?_, hfile, ?_⟩
    · rw [IsBase, ← hselected, ← hold]
      simp only [strippedFilename, ← hseverity]
      exact hisBase
    · rw [hpath, hname]
      simp only [logfileName, ← hextension]

/-! ### The first attempt -/

/-- The base name that is tried first. -/
def firstBase (cfg : Config) (o : LogFileObject) : Option Text :=
  if o.baseFilenameSelected then some o.baseFilename
  else cfg.loggingDirectories.head?.map fun dir => dir ++ '/' :: strippedFilename cfg o

theorem create_of_firstBase {base name path : Text} {inode : Nat} {isNew : Bool} (hbase : firstBase cfg o = some base)
    (hname : logfileName cfg (timePidString cfg.policy (namingTime cfg timestamp) p.mainThreadPid)
      { o with baseFilename := base } = name)
    (hpath : (getSuitableFileName cfg env name p).1 = path)
    (hopen : env.openFile path cfg.timestampInLogfileName = .success inode isNew) :
    create cfg env timestamp o p = (true,
      { o with
        baseFilename := base
        file := some ⟨path, inode, cfg.timestampInLogfileName || isNew, env.pid, timestamp, []⟩
        opens := o.opens ++ [path]
        fileList := insertFile ⟨name, env.indeterminateTime, .created o.creations⟩ o.fileList
        creations := o.creations + 1 }, (getSuitableFileName cfg env name p).2) := by
  unfold create
  unfold firstBase at hbase
  dsimp only
  by_cases hselected : o.baseFilenameSelected = true
  · rw [if_pos hselected] at hbase ⊢
    cases hbase
    simp only [createLogfile, createLogfileInternal, hname, hpath, hopen, if_true]
  · rw [if_neg hselected] at hbase ⊢
    obtain ⟨dir, hdir, rfl⟩ := Option.map_eq_some_iff.mp hbase
    obtain ⟨dirs, hdirs⟩ := List.head?_eq_some_iff.mp hdir
    rw [hdirs]
    simp only [createDefaultLogfile, createLogfile, createLogfileInternal, hname, hpath, hopen, if_true]

theorem create_of_none (hbase : firstBase cfg o = none) : create cfg env timestamp o p = (false, o, p) := by
  unfold create
  unfold firstBase at hbase
  dsimp only
  by_cases hselected : o.baseFilenameSelected = true
  · rw [if_pos hselected] at hbase
    cases hbase
  · rw [if_neg hselected] at hbase ⊢
    rw [Option.map_eq_none_iff, List.head?_eq_none_iff] at hbase
    rw [hbase]
    rfl

end

end Glog.LogFile
