import Glog.LogFile.Write

/-! # What the steps of a log file object do

For each function that `prepare` calls, the fields that it changes and the file that it opens. -/

namespace Glog.LogFile

section
variable (cfg : Config) (env : Env)

/-! ### The list of files -/

theorem retain_eq (o : LogFileObject) (l : List Filetime) :
    ∃ l' rs, retain cfg o l = { o with fileList := l', retired := o.retired ++ rs } := by
  induction l generalizing o with
  | nil => exact ⟨[], [], by rw [List.append_nil]; rfl⟩
  | cons e rest ih =>
    unfold retain
    split
    · obtain ⟨l', rs, heq⟩ := ih { o with retired := o.retired ++ [⟨e, rest⟩] }
      exact ⟨l', ⟨e, rest⟩ :: rs, by rw [heq, List.append_assoc]; rfl⟩
    · exact ⟨e :: rest, [], by rw [List.append_nil]⟩

theorem retain_fileList (l : List Filetime) :
    ∀ o o' : LogFileObject, (retain cfg o' l).fileList = (retain cfg o l).fileList := by
  induction l with
  | nil => exact fun _ _ => rfl
  | cons e rest ih =>
    intro o o'
    unfold retain
    split
    · exact ih _ _
    · rfl

/-- The list that is made does not depend on an earlier one. -/
theorem checkHistoryFileNum_fileList {o o' : LogFileObject} (hsymlink : o'.symlinkBasename = o.symlinkBasename)
    (hseverity : o'.severity = o.severity)
    (hlist : o'.fileList = o.fileList ∨ o'.fileList = (checkHistoryFileNum cfg env o).fileList) :
    (checkHistoryFileNum cfg env o').fileList = (checkHistoryFileNum cfg env o).fileList := by
  unfold checkHistoryFileNum at hlist ⊢
  rw [hsymlink, hseverity]
  cases hdirs : cfg.loggingDirectories with
  | nil =>
    simp only [hdirs, or_self] at hlist
    exact hlist
  | cons dir dirs =>
    cases hlisting : env.listing with
    | none =>
      simp only [hdirs, hlisting, or_self] at hlist
      exact hlist
    | some entries =>
      dsimp only
      cases (scan dir (o.symlinkBasename ++ '.' :: o.severity.name) entries []).2 with
      | true => exact retain_fileList cfg _ o o'
      | false => rfl

theorem checkHistoryFileNum_eq (o : LogFileObject) :
    ∃ l rs, checkHistoryFileNum cfg env o = { o with fileList := l, retired := o.retired ++ rs } := by
  unfold checkHistoryFileNum
  split
  · dsimp only
    split
    · exact retain_eq cfg o _
    · exact ⟨_, [], by rw [List.append_nil]⟩
  · exact ⟨o.fileList, [], by rw [List.append_nil]⟩

theorem prune_eq (o : LogFileObject) :
    ∃ l rs, prune cfg env o = { o with fileList := l, retired := o.retired ++ rs, initialized := true } := by
  unfold prune
  cases hinit : o.initialized with
  | true =>
    obtain ⟨l, rs, heq⟩ := retain_eq cfg o o.fileList
    refine ⟨l, rs, ?_⟩
    rw [if_pos rfl, heq]
    cases o
    cases hinit
    rfl
  | false =>
    obtain ⟨l, rs, heq⟩ := checkHistoryFileNum_eq cfg env o
    exact ⟨l, rs, by rw [if_neg Bool.false_ne_true, heq]⟩

/-! ### Names -/

theorem prefix_nextSequence (origin : Text) (count : Nat) : ∀ (i : Nat) (oldest : Int × Text), origin <+: oldest.2 →
    origin <+: nextSequence cfg env origin count i oldest := by
  induction count with
  | zero => exact fun _ _ h => h
  | succ count ih =>
    intro i oldest h
    have hname : origin <+: origin ++ '-' :: setw 3 (decimal i) := List.prefix_append ..
    unfold nextSequence
    dsimp only
    split
    · exact hname
    · split
      · exact hname
      · refine ih (i + 1) _ ?_
        split
        · exact hname
        · exact h

theorem prefix_getSuitableFileName (origin : Text) (p : Process) : origin <+: (getSuitableFileName cfg env origin p).1 := by
  have hsame : origin <+: origin := List.prefix_refl origin
  unfold getSuitableFileName
  split
  · exact hsame
  · split
    · split
      · exact prefix_nextSequence cfg env origin _ _ _ hsame
      · split
        · exact prefix_nextSequence cfg env origin _ _ _ hsame
        · exact prefix_nextSequence cfg env origin _ _ _ hsame
    · exact hsame

theorem prefix_logfileName (timePid : Text) (o : LogFileObject) : o.baseFilename <+: logfileName cfg timePid o := by
  unfold logfileName
  rw [List.append_assoc]
  exact List.prefix_append ..

/-! ### Creating a file -/

/-- What opening a file gives: its inode, and whether it is new. -/
def openedFile (path : Text) (excl : Bool) : Option (Nat × Bool) :=
  match env.openFile path excl with
  | .success inode isNew => some (inode, excl || isNew)
  | .failed | .lockFailed | .noStream => none

/-- The file that `createLogfile` opens. -/
def createdLogfile (timePid : Text) (o : LogFileObject) (p : Process) : Option (Nat × Bool) :=
  openedFile env (getSuitableFileName cfg env (logfileName cfg timePid o) p).1 cfg.timestampInLogfileName

def createdDefault (timePid : Text) (o : LogFileObject) (p : Process) : List Text → Option (Nat × Bool)
  | [] => none
  | dir :: dirs =>
    let o' := { o with baseFilename := dir ++ '/' :: strippedFilename cfg o }
    (createdLogfile cfg env timePid o' p).or
      (createdDefault timePid o (getSuitableFileName cfg env (logfileName cfg timePid o') p).2 dirs)

/-- The file that `create` opens. -/
def createdFile (timestamp : Int) (o : LogFileObject) (p : Process) : Option (Nat × Bool) :=
  let timePid := timePidString cfg.policy (namingTime cfg timestamp) p.mainThreadPid
  if o.baseFilenameSelected then createdLogfile cfg env timePid o p
  else createdDefault cfg env timePid o p cfg.loggingDirectories

/-- What an attempt to create a log file does: it opens some files in vain, and perhaps then one that is kept. -/
inductive Attempt (timestamp : Int) (o : LogFileObject) : Option (Nat × Bool) → LogFileObject → Prop
  | failed (base : Text) (paths : List Text)
      (hbase : o.baseFilenameSelected = true → base = o.baseFilename ∧ ∀ path ∈ paths, base <+: path) :
      Attempt timestamp o none { o with baseFilename := base, opens := o.opens ++ paths }
  | success (base : Text) (paths : List Text) (path name : Text) (inode : Nat) (isNew : Bool)
      (hbase : o.baseFilenameSelected = true → base = o.baseFilename ∧ ∀ q ∈ paths ++ [path], base <+: q) :
      Attempt timestamp o (some (inode, isNew))
        { o with
          baseFilename := base
          file := some ⟨path, inode, isNew, env.pid, timestamp, []⟩
          opens := o.opens ++ (paths ++ [path])
          fileList := insertFile ⟨name, env.indeterminateTime, .created o.creations⟩ o.fileList
          creations := o.creations + 1 }

theorem createLogfile_attempt (timePid : Text) (timestamp : Int) (o : LogFileObject) (p : Process) :
    (createLogfile cfg env timePid timestamp o p).1 = (createdLogfile cfg env timePid o p).isSome ∧
      Attempt env timestamp o (createdLogfile cfg env timePid o p) (createLogfile cfg env timePid timestamp o p).2.1 := by
  have hfront : o.baseFilename <+: (getSuitableFileName cfg env (logfileName cfg timePid o) p).1 :=
    (prefix_logfileName cfg timePid o).trans (prefix_getSuitableFileName ..)
  unfold createLogfile createLogfileInternal createdLogfile openedFile
  dsimp only
  generalize getSuitableFileName cfg env (logfileName cfg timePid o) p = suitable at hfront
  have hself : ∀ path ∈ [suitable.1], o.baseFilename <+: path := fun path hpath => by
    rw [List.mem_singleton.mp hpath]
    exact hfront
  cases env.openFile suitable.1 cfg.timestampInLogfileName with
  | failed =>
    have h : Attempt env timestamp o none { o with opens := o.opens ++ [] } :=
      .failed o.baseFilename [] fun _ => ⟨rfl, nofun⟩
    rw [List.append_nil] at h
    exact ⟨rfl, h⟩
  | lockFailed => exact ⟨rfl, .failed o.baseFilename [suitable.1] fun _ => ⟨rfl, hself⟩⟩
  | noStream => exact ⟨rfl, .failed o.baseFilename [suitable.1] fun _ => ⟨rfl, hself⟩⟩
  | success inode isNew =>
    exact ⟨rfl, .success o.baseFilename [] suitable.1 (logfileName cfg timePid o) inode _ fun _ => ⟨rfl, hself⟩⟩

/-- An attempt after others that failed, where no base name is set. -/
theorem Attempt.after {timestamp : Int} {o o' : LogFileObject} {made : Option (Nat × Bool)} {base : Text}
    {paths : List Text} (hbase : o.baseFilenameSelected = false)
    (h : Attempt env timestamp { o with baseFilename := base, opens := o.opens ++ paths } made o') :
    Attempt env timestamp o made o' := by
  have hnot : ∀ {p : Prop}, o.baseFilenameSelected = true → p :=
    fun ht => absurd ht (by rw [hbase]; exact Bool.false_ne_true)
  cases h with
  | failed base' paths' _ =>
    have hfailed : Attempt env timestamp o none
        { o with baseFilename := base', opens := o.opens ++ (paths ++ paths') } := .failed base' (paths ++ paths') hnot
    rw [← List.append_assoc] at hfailed
    exact hfailed
  | success base' paths' path name inode isNew _ =>
    have hsuccess : Attempt env timestamp o (some (inode, isNew))
        { o with
          baseFilename := base'
          file := some ⟨path, inode, isNew, env.pid, timestamp, []⟩
          opens := o.opens ++ (paths ++ paths' ++ [path])
          fileList := insertFile ⟨name, env.indeterminateTime, .created o.creations⟩ o.fileList
          creations := o.creations + 1 } := .success base' (paths ++ paths') path name inode isNew hnot
    rw [List.append_assoc paths, ← List.append_assoc o.opens] at hsuccess
    exact hsuccess

theorem createdDefault_congr {o o' : LogFileObject} (hseverity : o'.severity = o.severity)
    (hext : o'.filenameExtension = o.filenameExtension) (timePid : Text) (dirs : List Text) : ∀ p : Process,
      createdDefault cfg env timePid o' p dirs = createdDefault cfg env timePid o p dirs := by
  induction dirs with
  | nil => exact fun _ => rfl
  | cons dir dirs ih =>
    intro p
    simp only [createdDefault, createdLogfile, logfileName, strippedFilename, hseverity, hext, ih]

theorem createDefaultLogfile_attempt (timePid : Text) (timestamp : Int) (dirs : List Text) :
    ∀ (o : LogFileObject) (p : Process),
    o.baseFilenameSelected = false →
      (createDefaultLogfile cfg env timePid timestamp o p dirs).1 = (createdDefault cfg env timePid o p dirs).isSome ∧
        Attempt env timestamp o (createdDefault cfg env timePid o p dirs)
          (createDefaultLogfile cfg env timePid timestamp o p dirs).2.1 := by
  induction dirs with
  | nil =>
    intro o p _
    have h : Attempt env timestamp o none { o with opens := o.opens ++ [] } :=
      .failed o.baseFilename [] fun _ => ⟨rfl, nofun⟩
    rw [List.append_nil] at h
    exact ⟨rfl, h⟩
  | cons dir dirs ih =>
    intro o p hbase
    obtain ⟨hsome, hfirst⟩ := createLogfile_attempt cfg env timePid timestamp
      { o with baseFilename := dir ++ '/' :: strippedFilename cfg o } p
    have hprocess :
        (createLogfile cfg env timePid timestamp { o with baseFilename := dir ++ '/' :: strippedFilename cfg o } p).2.2 =
        (getSuitableFileName cfg env
          (logfileName cfg timePid { o with baseFilename := dir ++ '/' :: strippedFilename cfg o }) p).2 := by
      unfold createLogfile
      dsimp only
      split <;> rfl
    unfold createDefaultLogfile createdDefault
    dsimp only
    rw [← hprocess]
    generalize createLogfile cfg env timePid timestamp { o with baseFilename := dir ++ '/' :: strippedFilename cfg o } p = r
      at hsome hfirst
    generalize createdLogfile cfg env timePid { o with baseFilename := dir ++ '/' :: strippedFilename cfg o } p = made
      at hsome hfirst
    obtain ⟨b, o₁, p₁⟩ := r
    have hattempt : Attempt env timestamp o made o₁ := by
      have hsame : Attempt env timestamp
          { o with baseFilename := dir ++ '/' :: strippedFilename cfg o, opens := o.opens ++ [] } made o₁ := by
        rwa [List.append_nil]
      exact Attempt.after env hbase hsame
    cases made with
    | some f =>
      cases hsome
      exact ⟨rfl, hattempt⟩
    | none =>
      cases hsome
      cases hattempt with
      | failed base paths _ =>
        have hsame : createdDefault cfg env timePid { o with baseFilename := base, opens := o.opens ++ paths } p₁ dirs =
            createdDefault cfg env timePid o p₁ dirs :=
          createdDefault_congr cfg env (by rfl) (by rfl) timePid dirs p₁
        have hrest := ih { o with baseFilename := base, opens := o.opens ++ paths } p₁ hbase
        rw [hsame] at hrest
        exact ⟨hrest.1, Attempt.after env hbase hrest.2⟩

theorem createdFile_congr {o o' : LogFileObject} (hselected : o'.baseFilenameSelected = o.baseFilenameSelected)
    (hbase : o'.baseFilename = o.baseFilename) (hseverity : o'.severity = o.severity)
    (hext : o'.filenameExtension = o.filenameExtension) (timestamp : Int) (p : Process) :
    createdFile cfg env timestamp o' p = createdFile cfg env timestamp o p := by
  simp only [createdFile, createdLogfile, logfileName, hselected, hbase, hext, createdDefault_congr cfg env hseverity hext]

/-- The object when `makeFile` tries to create a file. -/
def pruned (timestamp : Int) (o : LogFileObject) : LogFileObject :=
  { prune cfg env { o with rolloverAttempt := 0 } with tmTime := namingTime cfg timestamp }

theorem create_attempt (timestamp : Int) (o : LogFileObject) (p : Process) :
    (create cfg env timestamp o p).1 = (createdFile cfg env timestamp o p).isSome ∧
      Attempt env timestamp o (createdFile cfg env timestamp o p) (create cfg env timestamp o p).2.1 := by
  unfold create createdFile
  cases hbase : o.baseFilenameSelected with
  | true => exact createLogfile_attempt cfg env _ timestamp o p
  | false => exact createDefaultLogfile_attempt cfg env _ timestamp cfg.loggingDirectories o p hbase

theorem makeFile_due {timestamp : Int} {o : LogFileObject} {p : Process}
    (hattempt : o.rolloverAttempt + 1 = kRolloverAttemptFrequency) : makeFile cfg env timestamp o p =
      (let r := create cfg env timestamp (pruned cfg env timestamp o) p
      if r.1 then (true, writeHeader cfg env (namingTime cfg timestamp) r.2.1, r.2.2) else r) := by
  rw [makeFile, if_neg fun h => h hattempt]
  rfl

theorem pruned_eq (timestamp : Int) (o : LogFileObject) : ∃ l rs, pruned cfg env timestamp o =
    { o with
      rolloverAttempt := 0
      fileList := l
      retired := o.retired ++ rs
      initialized := true
      tmTime := namingTime cfg timestamp } := by
  obtain ⟨l, rs, heq⟩ := prune_eq cfg env { o with rolloverAttempt := 0 }
  exact ⟨l, rs, by rw [pruned, heq]⟩

theorem createdFile_pruned (timestamp : Int) (o : LogFileObject) (p : Process) :
    createdFile cfg env timestamp (pruned cfg env timestamp o) p = createdFile cfg env timestamp o p := by
  obtain ⟨l, rs, heq⟩ := pruned_eq cfg env timestamp o
  rw [heq]
  unfold createdFile
  dsimp only
  split
  · rfl
  · exact createdDefault_congr cfg env (by rfl) (by rfl) _ _ _

theorem makeFile_cases (timestamp : Int) (o : LogFileObject) (p : Process) :
    (o.rolloverAttempt + 1 ≠ kRolloverAttemptFrequency ∧
      makeFile cfg env timestamp o p = (false, { o with rolloverAttempt := o.rolloverAttempt + 1 }, p)) ∨
    (o.rolloverAttempt + 1 = kRolloverAttemptFrequency ∧
      ∃ made o' p', createdFile cfg env timestamp o p = made ∧ Attempt env timestamp (pruned cfg env timestamp o) made o' ∧
        makeFile cfg env timestamp o p =
          (made.isSome, if made.isSome then writeHeader cfg env (namingTime cfg timestamp) o' else o', p')) := by
  by_cases hattempt : o.rolloverAttempt + 1 = kRolloverAttemptFrequency
  · refine Or.inr ⟨hattempt, ?_⟩
    obtain ⟨hsome, hcreate⟩ := create_attempt cfg env timestamp (pruned cfg env timestamp o) p
    rw [createdFile_pruned] at hsome hcreate
    rw [makeFile_due cfg env hattempt]
    generalize create cfg env timestamp (pruned cfg env timestamp o) p = r at hsome hcreate
    obtain ⟨b, o', p'⟩ := r
    refine ⟨_, o', p', rfl, hcreate, ?_⟩
    rw [← hsome]
    cases b <;> rfl
  · refine Or.inl ⟨hattempt, ?_⟩
    rw [makeFile, if_pos hattempt]

/-! ### The history -/

/-- The file that is reopened, if there is one. -/
def newestHistory (o : LogFileObject) : Option Filetime := (checkHistoryFileNum cfg env o).fileList.getLast?

/-- The history file that a `Write` without an open file reopens. -/
def reopenedFile (o : LogFileObject) : Option (Nat × Bool) :=
  if o.initialized = false ∧ cfg.policy = .size then (newestHistory cfg env o).bind fun e => openedFile env e.name false
  else none

theorem reopenedFile_eq {o : LogFileObject} {e : Filetime} {inode : Nat} {isNew : Bool} (hpolicy : cfg.policy = .size)
    (hinit : o.initialized = false) (hnewest : newestHistory cfg env o = some e)
    (hopen : env.openFile e.name false = .success inode isNew) : reopenedFile cfg env o = some (inode, isNew) := by
  rw [reopenedFile, if_pos ⟨hinit, hpolicy⟩, hnewest, Option.bind_some, openedFile, hopen]
  rfl

/-- What `reopenHistory` does: nothing, or it looks for the newest history file and may open it. -/
inductive Reopened (timestamp : Int) (o : LogFileObject) : LogFileObject → Prop
  | skipped (hreopened : o.file = none → reopenedFile cfg env o = none) : Reopened timestamp o o
  | failed (l : List Filetime) (rs : List Retired) (paths : List Text) (hfile : o.file = none)
      (hpolicy : cfg.policy = .size) (hinit : o.initialized = false)
      (hpaths : ∀ path ∈ paths, ∃ e, newestHistory cfg env o = some e ∧ e.name = path ∧ env.openFile path false ≠ .failed)
      (hlist : checkHistoryFileNum cfg env o = { o with fileList := l, retired := o.retired ++ rs })
      (hreopened : reopenedFile cfg env o = none) :
      Reopened timestamp o { o with fileList := l, retired := o.retired ++ rs, opens := o.opens ++ paths }
  | success (l : List Filetime) (rs : List Retired) (e : Filetime) (inode : Nat) (isNew : Bool) (hfile : o.file = none)
      (hpolicy : cfg.policy = .size) (hinit : o.initialized = false) (hnewest : newestHistory cfg env o = some e)
      (hopen : env.openFile e.name false = .success inode isNew)
      (hlist : checkHistoryFileNum cfg env o = { o with fileList := l, retired := o.retired ++ rs }) :
      Reopened timestamp o
        { o with
          fileList := l
          retired := o.retired ++ rs
          file := some ⟨e.name, inode, isNew, env.pid, timestamp, []⟩
          opens := o.opens ++ [e.name]
          initialized := true }

theorem reopenHistory_reopened (timestamp : Int) (o : LogFileObject) :
    Reopened cfg env timestamp o (reopenHistory cfg env timestamp o) := by
  unfold reopenHistory
  split
  · rename_i hcond
    obtain ⟨hfile, hinit, hpolicy⟩ := hcond
    rw [Option.isNone_iff_eq_none] at hfile
    obtain ⟨l, rs, hlist⟩ := checkHistoryFileNum_eq cfg env o
    have hvain : ∀ paths : List Text,
        (∀ path ∈ paths, ∃ e, newestHistory cfg env o = some e ∧ e.name = path ∧ env.openFile path false ≠ .failed) →
        reopenedFile cfg env o = none →
        Reopened cfg env timestamp o { o with fileList := l, retired := o.retired ++ rs, opens := o.opens ++ paths } :=
      fun paths hpaths hreopened => .failed l rs paths hfile hpolicy hinit hpaths hlist hreopened
    dsimp only
    split
    · rename_i hnewest
      have h := hvain [] nofun (by rw [reopenedFile, if_pos ⟨hinit, hpolicy⟩, newestHistory, hnewest, Option.bind_none])
      rw [List.append_nil] at h
      rwa [hlist]
    · rename_i e hnewest
      have hself : env.openFile e.name false ≠ .failed → ∀ path ∈ [e.name], ∃ e, newestHistory cfg env o = some e ∧
          e.name = path ∧ env.openFile path false ≠ .failed := fun hne path hpath => by
        rw [List.mem_singleton.mp hpath]
        exact ⟨e, hnewest, rfl, hne⟩
      have hreopened : reopenedFile cfg env o = openedFile env e.name false := by
        rw [reopenedFile, if_pos ⟨hinit, hpolicy⟩, newestHistory, hnewest, Option.bind_some]
      unfold createLogfileInternal
      unfold openedFile at hreopened
      rw [hlist]
      cases hopen : env.openFile e.name false with
      | failed =>
        rw [hopen] at hreopened
        have h := hvain [] nofun hreopened
        rwa [List.append_nil] at h
      | lockFailed =>
        rw [hopen] at hreopened
        exact hvain [e.name] (hself (by rw [hopen]; exact nofun)) hreopened
      | noStream =>
        rw [hopen] at hreopened
        exact hvain [e.name] (hself (by rw [hopen]; exact nofun)) hreopened
      | success inode isNew => exact .success l rs e inode isNew hfile hpolicy hinit hnewest hopen hlist
  · rename_i hcond
    refine .skipped fun hfile => ?_
    rw [reopenedFile, if_neg fun h => hcond ⟨Option.isNone_iff_eq_none.mpr hfile, h⟩]

theorem newestHistory_rollIfNeeded (need : Bool) (o : LogFileObject) :
    newestHistory cfg env (rollIfNeeded need o) = newestHistory cfg env o := by
  unfold newestHistory
  cases need with
  | true =>
    have hlist : (checkHistoryFileNum cfg env (rollIfNeeded true o)).fileList = (checkHistoryFileNum cfg env o).fileList :=
      checkHistoryFileNum_fileList cfg env (by rfl) (by rfl) (Or.inl (by rfl))
    rw [hlist]
  | false => rfl

end

end Glog.LogFile
