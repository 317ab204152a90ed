import Glog.LogFile.Suitable

/-! # The file that must be new

With the time in its name a log file must not exist before, `CreateLogfile` demands. The name is that of
`GetSuitableFileName`, which also hands out the name of a file that is not full. -/

namespace Glog.LogFile
open LogCleaner

/-- What is there when the environment answers. A name may be taken although `stat` tells nothing of it, such as that of a
    link to nothing. -/
structure Disk (env : Env) where
  present : Text → Bool
  present_of_stat : ∀ name, (env.stat name).isSome → present name = true

section
variable {cfg : Config} {env : Env}

/-- Whether the name is taken behind `GetSuitableFileName`; the removal of the oldest file is taken to succeed. -/
def Disk.after (disk : Disk env) (choice : Choice) (name : Text) : Bool :=
  disk.present name && choice.removed != some name

variable (cfg) in
/-- A `Write` that needs a new file of its own base name, and what it hands to `CreateLogfile`. -/
structure NeedsFile (env : Env) (timestamp : Int) (o : LogFileObject) (p : Process) (timePid : Text) (p' : Process) :
    Prop where
  selected : o.baseFilenameSelected = true
  nonempty : o.baseFilename ≠ []
  due : (checkNeedRollLogFiles cfg env timestamp o p).1 = true ∨ o.file = none ∧
    o.rolloverAttempt + 1 = kRolloverAttemptFrequency
  process : (checkNeedRollLogFiles cfg env timestamp o p).2 = p'
  timePid : timePidString cfg.policy (namingTime cfg timestamp) p'.mainThreadPid = timePid

/-- Only a name that is taken keeps a file from being made. -/
def Disk.Opens (disk : Disk env) (choice : Choice) : Prop :=
  ∀ path, disk.after choice path = false → ∃ inode isNew, env.openFile path true = .success inode isNew

/-- The name is not taken, and so there is a file, and a `Write` gets to its message. -/
structure CreatesNew (cfg : Config) (disk : Disk env) (timePid : Text) (o : LogFileObject) (p : Process) : Prop where
  free : disk.after (chooseFileName cfg env (logfileName cfg timePid o) p)
    (getSuitableFileName cfg env (logfileName cfg timePid o) p).1 = false
  creates : disk.Opens (chooseFileName cfg env (logfileName cfg timePid o) p) →
    ∀ timestamp, (createLogfile cfg env timePid timestamp o p).1 = true
  writes : disk.Opens (chooseFileName cfg env (logfileName cfg timePid o) p) →
    ∀ timestamp p₀, NeedsFile cfg env timestamp o p₀ timePid p → Writes cfg env timestamp o p₀

/-- The name as it is is not taken, or its file is too large, and then the numbered name that suits first is not taken, if
    there is one. -/
def Unused (cfg : Config) (disk : Disk env) (origin : Text) (p : Process) : Prop :=
  disk.present origin = false ∨
    ∃ st, env.stat origin = some st ∧ st.size >>> 20 > maxLogSize cfg ∧
      ∀ k < sequenceLength env p, (∀ j < k, ¬ Suits cfg env (candidate origin j)) → Suits cfg env (candidate origin k) →
        disk.present (candidate origin k) = false

/-! ### The name -/

theorem Disk.after_of_kept {disk : Disk env} {choice : Choice} (hremoved : choice.removed = none) (name : Text) :
    disk.after choice name = disk.present name := by
  rw [Disk.after, hremoved]
  exact Bool.and_true _

theorem Disk.after_removed {disk : Disk env} {choice : Choice} {name : Text} (hremoved : choice.removed = some name) :
    disk.after choice name = false := by
  simp [Disk.after, hremoved]

/-- The name that the loop finds is not taken. -/
theorem after_chooseSequence_iff (disk : Disk env) {origin : Text} {st : FileStat} (hstat : env.stat origin = some st)
    (count : Nat) :
    disk.after (chooseSequence cfg env origin count 0 (st.mtime, origin))
        (chooseSequence cfg env origin count 0 (st.mtime, origin)).name = false ↔
      ∀ k < count, (∀ j < k, ¬ Suits cfg env (candidate origin j)) → Suits cfg env (candidate origin k) →
        disk.present (candidate origin k) = false := by
  have hself : Oldest env [origin] origin := by
    refine ⟨st, hstat, fun other hother st' hst' => ?_⟩
    rw [List.mem_singleton.mp hother, hstat] at hst'
    cases hst'
    exact Int.le_refl _
  have hchosen := @chooseSequence_chosen cfg env origin count 0 [origin] (st.mtime, origin) st hstat rfl hself
  generalize chooseSequence cfg env origin count 0 (st.mtime, origin) = choice at hchosen
  cases hchosen with
  | suits k hk hfirst hsuits =>
    simp only [Nat.zero_add] at hfirst hsuits ⊢
    rw [Disk.after_of_kept rfl]
    constructor
    · intro hfree k' _ hfirst' hsuits'
      -- There is only one that suits first.
      have heq : k' = k := Nat.le_antisymm (Nat.le_of_not_lt fun hlt => hfirst' k hlt hsuits)
        (Nat.le_of_not_lt fun hlt => hfirst k' hlt hsuits')
      rw [heq]
      exact hfree
    · intro h
      exact h k hk hfirst hsuits
  | full name hfull _ =>
    simp only [Nat.zero_add] at hfull
    rw [Disk.after_removed rfl]
    exact ⟨fun _ k hk _ hsuits => absurd hsuits (hfull k hk), fun _ => rfl⟩

theorem after_chooseFileName_iff (disk : Disk env) (origin : Text) (p : Process) :
    disk.after (chooseFileName cfg env origin p) (getSuitableFileName cfg env origin p).1 = false ↔
      Unused cfg disk origin p := by
  rw [← name_chooseFileName, chooseFileName, Unused]
  cases hstat : env.stat origin with
  | none =>
    dsimp only
    rw [Disk.after_of_kept rfl]
    constructor
    · exact Or.inl
    · rintro (hfree | ⟨st, hst, -⟩)
      · exact hfree
      · cases hst
  | some st =>
    have hpresent : disk.present origin = true := disk.present_of_stat origin (by rw [hstat]; rfl)
    dsimp only
    split
    · rename_i hlarge
      rw [after_chooseSequence_iff disk hstat]
      constructor
      · exact fun h => Or.inr ⟨st, rfl, hlarge, h⟩
      · rintro (hfree | ⟨st', hst, -, h⟩)
        · exact absurd (hpresent.symm.trans hfree) (by decide)
        · exact h
    · rename_i hsmall
      rw [Disk.after_of_kept rfl]
      constructor
      · exact Or.inl
      · rintro (hfree | ⟨st', hst, hlarge, -⟩)
        · exact hfree
        · cases hst
          exact absurd hlarge hsmall

/-! ### The file -/

theorem createdLogfile_isSome {disk : Disk env} {timePid : Text} {o : LogFileObject} {p : Process}
    (htime : cfg.timestampInLogfileName = true)
    (hfree : disk.after (chooseFileName cfg env (logfileName cfg timePid o) p)
      (getSuitableFileName cfg env (logfileName cfg timePid o) p).1 = false)
    (hopens : disk.Opens (chooseFileName cfg env (logfileName cfg timePid o) p)) :
    (createdLogfile cfg env timePid o p).isSome := by
  obtain ⟨inode, isNew, hopen⟩ := hopens _ hfree
  rw [createdLogfile, openedFile, htime, hopen]
  rfl

/-- A `Write` that needs a file and can make it gets to its message. -/
theorem NeedsFile.writes {timestamp : Int} {o : LogFileObject} {p₀ : Process} {timePid : Text} {p : Process}
    (h : NeedsFile cfg env timestamp o p₀ timePid p) (hcreated : (createdLogfile cfg env timePid o p).isSome) :
    Writes cfg env timestamp o p₀ := by
  refine ⟨fun hbase => h.nonempty hbase.2, ?_⟩
  have hfile : createdFile cfg env timestamp o p = createdLogfile cfg env timePid o p := by
    rw [createdFile, if_pos h.selected, h.timePid]
  cases prepare_prepared cfg env timestamp o p₀ with
  | stays handle hfile hneed _ =>
    rcases h.due with hdue | ⟨hnone, -⟩
    · exact absurd (hdue.symm.trans hneed) (by decide)
    · cases hnone.symm.trans hfile
  | reopens rolled _ _ l rs path inode isNew _ _ heq => rw [heq]
  | makes rolled hrolled _ l rs paths _ _ _ heq =>
    have hattempt : rolled.rolloverAttempt + 1 = kRolloverAttemptFrequency := by
      rcases h.due with hneed | ⟨-, hattempt⟩
      · rw [hrolled, hneed]
        rfl
      · rw [hrolled]
        cases (checkNeedRollLogFiles cfg env timestamp o p₀).1 with
        | true => rfl
        | false => exact hattempt
    have hsame : rolled.baseFilenameSelected = o.baseFilenameSelected ∧ rolled.baseFilename = o.baseFilename ∧
        rolled.filenameExtension = o.filenameExtension ∧ rolled.severity = o.severity := by
      rw [hrolled]
      cases (checkNeedRollLogFiles cfg env timestamp o p₀).1 <;> exact ⟨rfl, rfl, rfl, rfl⟩
    obtain ⟨hselected, hbase, hextension, hseverity⟩ := hsame
    rw [heq, h.process]
    rcases makeFile_cases cfg env timestamp
        { rolled with fileList := l, retired := rolled.retired ++ rs, opens := rolled.opens ++ paths } p
      with ⟨hnot, -⟩ | ⟨-, made, o', p', hmade, -, heq⟩
    · exact absurd hattempt hnot
    · have hcongr : createdFile cfg env timestamp
          { rolled with fileList := l, retired := rolled.retired ++ rs, opens := rolled.opens ++ paths } p =
          createdFile cfg env timestamp o p :=
        createdFile_congr cfg env (by exact hselected) (by exact hbase) (by exact hseverity)
          (by exact hextension) timestamp p
      rw [heq, ← hmade, hcongr, hfile]
      exact hcreated

/-! ### New files -/

/-- There is a new file exactly where the name is not used. -/
theorem createsNew_iff (htime : cfg.timestampInLogfileName = true) (disk : Disk env) (timePid : Text)
    (o : LogFileObject) (p : Process) :
    CreatesNew cfg disk timePid o p ↔ Unused cfg disk (logfileName cfg timePid o) p := by
  rw [← after_chooseFileName_iff]
  constructor
  · exact fun h => h.free
  · intro hfree
    refine ⟨hfree, fun hopens timestamp => ?_, fun hopens timestamp p₀ hneeds => ?_⟩
    · rw [(createLogfile_attempt cfg env timePid timestamp o p).1]
      exact createdLogfile_isSome htime hfree hopens
    · exact hneeds.writes (createdLogfile_isSome htime hfree hopens)

/-- Where the name is used, an environment that refuses names that are taken makes no file. -/
theorem not_createLogfile_of_used {disk : Disk env} {timePid : Text} {o : LogFileObject} {p : Process}
    (htime : cfg.timestampInLogfileName = true)
    (htaken : ∀ path, disk.after (chooseFileName cfg env (logfileName cfg timePid o) p) path = true →
      env.openFile path true = .failed)
    (hused : ¬ Unused cfg disk (logfileName cfg timePid o) p) (timestamp : Int) :
    (createLogfile cfg env timePid timestamp o p).1 = false := by
  rw [← after_chooseFileName_iff, Bool.not_eq_false] at hused
  rw [(createLogfile_attempt cfg env timePid timestamp o p).1, createdLogfile, openedFile, htime, htaken _ hused]
  rfl

end

/-- The file and the first one with a number are there, and full. -/
def rolledEnv : Env :=
  { plainEnv with
    stat := fun name => if name = "a.7".toList ∨ name = "a.7-000".toList then some ⟨2097152, 0⟩ else none
    indeterminateCount := 10 }

def rolledDisk : Disk rolledEnv where
  present name := (rolledEnv.stat name).isSome
  present_of_stat _ h := h

theorem createsNew_iff_rolled : CreatesNew plainConfig rolledDisk ".7".toList (plainObject plainConfig) plainProcess := by
  refine (createsNew_iff rfl rolledDisk ".7".toList (plainObject plainConfig) plainProcess).mpr ?_
  refine Or.inr ⟨⟨2097152, 0⟩, rfl, by decide, ?_⟩
  intro k _ _ hsuits
  change (rolledEnv.stat (candidate _ k)).isSome = false
  cases hstat : rolledEnv.stat (candidate _ k) with
  | none => rfl
  | some st =>
    have hsmall : st.size < 1048576 := hsuits st hstat
    change (if _ then some _ else none) = some st at hstat
    split at hstat
    · cases hstat
      exact absurd hsmall (by decide)
    · cases hstat

/-- The file of the day is there, and not full. -/
def sameDayEnv : Env :=
  { plainEnv with
    stat := fun name => if name = "a20000101.7".toList then some ⟨100, 0⟩ else none
    openFile := fun path excl => if path = "a20000101.7".toList ∧ excl = true then .failed else .success 1 true }

def sameDayDisk : Disk sameDayEnv where
  present name := (sameDayEnv.stat name).isSome
  present_of_stat _ h := h

/-- Such a file is handed out again. -/
theorem not_createsNew : ¬ ∀ (cfg : Config) (env : Env), cfg.timestampInLogfileName = true →
    ∀ (disk : Disk env) (timePid : Text) (o : LogFileObject) (p : Process), CreatesNew cfg disk timePid o p := fun h => by
  have hfree := (h plainConfig sameDayEnv rfl sameDayDisk "20000101.7".toList (plainObject plainConfig) plainProcess).free
  exact absurd hfree (by decide)

end Glog.LogFile
