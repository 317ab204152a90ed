import Glog.LogFile.Prepare

/-! # The counter of a log file

`file_length_` counts what has been written to the open file. A file that is closed by a change of its name
leaves the counter as it was; only a rollover resets it. -/

namespace Glog.LogFile

/-- The counter is the number of bytes written to the open file. -/
def Counted (o : LogFileObject) : Prop := ∀ h, o.file = some h → o.fileLength = h.size

/-- A file that is opened here is counted from zero. -/
structure Level (o : LogFileObject) : Prop where
  counted : Counted o
  zero : o.file = none → o.fileLength = 0

theorem counted_of_none {o : LogFileObject} (h : o.file = none) : Counted o := fun h' hfile => by
  rw [h] at hfile
  cases hfile

theorem Counted.of_eq {o o' : LogFileObject} (h : Counted o) (hfile : o'.file = o.file)
    (hlength : o'.fileLength = o.fileLength) :
    Counted o' := fun h' hnew => by
  rw [hlength]
  exact h h' (hfile.symm.trans hnew)

theorem Handle.size_append (h : Handle) (c : Chunk) :
    Handle.size { h with written := h.written ++ [c] } = h.size + c.text.length := by
  simp [Handle.size]

section
variable (cfg : Config) (env : Env)

/-- Where a `Write` opens a file, the counter is zero or is reset by a rollover. -/
def CountsFromZero (timestamp : Int) (o : LogFileObject) (p : Process) : Prop :=
  o.file = none → o.fileLength = 0 ∨ (checkNeedRollLogFiles cfg env timestamp o p).1 = true

theorem appendChunk_counted {c : Chunk} {length : Nat} {o : LogFileObject} (hfull : env.diskFull = false)
    (hlength : c.text.length = length) (h : Counted o) : Counted (countBytes length (appendChunk env c o)) := by
  intro h' hfile
  simp only [countBytes, appendChunk, env.take_taken hfull, Option.map_eq_some_iff] at hfile ⊢
  obtain ⟨h₀, hold, rfl⟩ := hfile
  rw [h h₀ hold, Handle.size_append, hlength]

theorem writeHeader_counted {tm : Tm} {o : LogFileObject} (hfull : env.diskFull = false) (h : Counted o) :
    Counted (writeHeader cfg env tm o) := by
  unfold writeHeader
  split
  · exact appendChunk_counted env hfull rfl h
  · exact h

theorem rollIfNeeded_level {timestamp : Int} {o : LogFileObject} {p : Process} (h : Counted o)
    (hzero : CountsFromZero cfg env timestamp o p) :
    Level (rollIfNeeded (checkNeedRollLogFiles cfg env timestamp o p).1 o) := by
  unfold rollIfNeeded
  split
  · exact ⟨counted_of_none rfl, fun _ => rfl⟩
  · rename_i hneed
    exact ⟨h, fun hfile => (hzero hfile).resolve_right hneed⟩

theorem reopenHistory_level {timestamp : Int} {o : LogFileObject} (h : Level o) :
    Level (reopenHistory cfg env timestamp o) := by
  have hreopened := reopenHistory_reopened cfg env timestamp o
  generalize reopenHistory cfg env timestamp o = o' at hreopened
  cases hreopened with
  | skipped _ => exact h
  | failed l rs paths hfile _ _ _ _ _ => exact ⟨counted_of_none hfile, fun _ => h.zero hfile⟩
  | success l rs e inode isNew hfile _ _ _ _ _ =>
    refine ⟨fun h' hnew => ?_, nofun⟩
    cases hnew
    exact h.zero hfile

theorem makeFile_counted {timestamp : Int} {o : LogFileObject} {p : Process} (hfull : env.diskFull = false)
    (hfile : o.file = none) (hzero : o.fileLength = 0) : Counted (makeFile cfg env timestamp o p).2.1 := by
  rcases makeFile_cases cfg env timestamp o p with ⟨-, heq⟩ | ⟨-, made, o', p', -, hattempt, heq⟩
  · rw [heq]
    exact counted_of_none hfile
  · rw [heq]
    obtain ⟨l, rs, hpruned⟩ := pruned_eq cfg env timestamp o
    rw [hpruned] at hattempt
    cases hattempt with
    | failed base paths _ => exact counted_of_none hfile
    | success base paths path name inode isNew _ =>
      refine writeHeader_counted cfg env hfull fun h' hnew => ?_
      cases hnew
      exact hzero

theorem prepare_counted {timestamp : Int} {o : LogFileObject} {p : Process} (hfull : env.diskFull = false) (h : Counted o)
    (hzero : CountsFromZero cfg env timestamp o p) : Counted (prepare cfg env timestamp o p).2.1 := by
  have hlevel : Level (reopenHistory cfg env timestamp (rollIfNeeded (checkNeedRollLogFiles cfg env timestamp o p).1 o)) :=
    reopenHistory_level cfg env (rollIfNeeded_level cfg env h hzero)
  unfold prepare
  dsimp only
  split
  · rename_i hfile
    rw [Option.isNone_iff_eq_none] at hfile
    exact makeFile_counted cfg env hfull hfile (hlevel.zero hfile)
  · exact hlevel.counted

theorem flush_counted {now : Int} {o : LogFileObject} (h : Counted o) : Counted (flush cfg now o) :=
  h.of_eq (flush_file cfg now o) (flush_fileLength cfg now o)

theorem dropLogMemory_counted {o : LogFileObject} (h : Counted o) : Counted (dropLogMemory cfg o) :=
  h.of_eq (dropLogMemory_file cfg o) (dropLogMemory_fileLength cfg o)

theorem writeMessage_counted {force : Bool} {message : Text} {o : LogFileObject} {p : Process}
    (hfull : env.diskFull = false) (h : Counted o) : Counted (writeMessage cfg env force message o p).1 := by
  have happended : Counted (countBytes message.length (appendChunk env (.message message) o)) :=
    appendChunk_counted env hfull rfl h
  unfold writeMessage
  split
  · exact h
  · dsimp only
    rw [if_neg (by rw [hfull]; exact fun hc => Bool.false_ne_true hc.2)]
    split
    · exact dropLogMemory_counted cfg (flush_counted cfg happended)
    · exact happended

theorem write_counted {force : Bool} {timestamp : Int} {message : Text} {o : LogFileObject} {p : Process}
    (hfull : env.diskFull = false) (h : Counted o) (hzero : CountsFromZero cfg env timestamp o p) :
    Counted (write cfg env force timestamp message o p).1 := by
  have hprepared := prepare_counted cfg env hfull h hzero
  unfold write
  split
  · exact h
  · dsimp only
    split
    · exact writeMessage_counted cfg env hfull hprepared
    · exact hprepared

end

theorem setBasename_counted {basename : Text} {o : LogFileObject} (h : Counted o) : Counted (setBasename basename o) := by
  unfold setBasename
  dsimp only
  split
  · split
    · exact counted_of_none rfl
    · exact h
  · exact h

theorem setExtension_counted {ext : Text} {o : LogFileObject} (h : Counted o) : Counted (setExtension ext o) := by
  unfold setExtension
  split
  · dsimp only
    split
    · exact counted_of_none rfl
    · exact h
  · exact h

/-- Writes with a disk that is never full. -/
def NeverFull (_ : LogFileObject) : Op → Prop
  | .write env _ _ _ _ => env.diskFull = false
  | _ => True

/-- Every `Write` that opens a file starts the counter from zero. -/
def StartsFromZero (cfg : Config) (o : LogFileObject) : Op → Prop
  | .write env p _ timestamp _ => CountsFromZero cfg env timestamp o p
  | _ => True

theorem step_counted {cfg : Config} {o : LogFileObject} {op : Op} (h : Counted o) (hfull : NeverFull o op)
    (hzero : StartsFromZero cfg o op) : Counted (step cfg o op) := by
  cases op with
  | write env p force timestamp message => exact write_counted cfg env hfull h hzero
  | flush now => exact flush_counted cfg h
  | setBasename basename => exact setBasename_counted h
  | setExtension ext => exact setExtension_counted h
  | setSymlinkBasename basename => exact h

/-- In a run in which every file is counted from zero, `LogSize` is the number of bytes written to the open
    file. -/
theorem logSize_eq_size {cfg : Config} {severity : Severity} {base : Option Text} {now : Int} {tm : Tm} {o : LogFileObject}
    (hrun : Run.Reaches (step cfg) (fun o op => NeverFull o op ∧ StartsFromZero cfg o op) (.new cfg severity base now tm) o)
    {h : Handle} (hfile : o.file = some h) : logSize o = h.size := by
  have hcounted : Counted o :=
    hrun.invariant (counted_of_none rfl) fun t op ht hok => step_counted ht hok.1 hok.2
  exact hcounted h hfile

/-- The object after one message. -/
def afterMessage : LogFileObject := step plainConfig (plainObject plainConfig) (plainWrite 0 "ab".toList)

theorem logSize_eq_size_afterMessage : ∃ h, afterMessage.file = some h ∧ logSize afterMessage = h.size :=
  ⟨_, rfl, logSize_eq_size (Run.Reaches.start.next (plainWrite 0 "ab".toList) ⟨rfl, fun _ => Or.inl rfl⟩) rfl⟩

/-- A message, a new base name, and another message: the counter says three where one byte was written. -/
theorem not_logSize_eq_size : ¬ ∀ (cfg : Config) (severity : Severity) (base : Option Text) (now : Int) (tm : Tm)
    (o : LogFileObject), Run.Reaches (step cfg) NeverFull (.new cfg severity base now tm) o →
      ∀ h, o.file = some h → logSize o = h.size := fun h => by
  have hrun : Run.Reaches (step plainConfig) NeverFull (plainObject plainConfig)
      ([plainWrite 0 "ab".toList, .setBasename ['b'], plainWrite 0 ['c']].foldl (step plainConfig)
        (plainObject plainConfig)) :=
    .foldl fun t op hop => by
      rcases List.mem_cons.mp hop with rfl | hop
      · exact rfl
      · rcases List.mem_cons.mp hop with rfl | hop
        · exact trivial
        · rw [List.mem_singleton.mp hop]
          exact rfl
  have hsize := h plainConfig .info (some ['a']) 0 (plainTm 0) _ hrun _ rfl
  exact absurd hsize (by decide)

end Glog.LogFile
