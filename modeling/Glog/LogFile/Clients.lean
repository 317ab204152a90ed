import Mathlib.Logic.Function.Basic
import Glog.Files.Locks
import Glog.LogFile.Destination
import Glog.LogFile.Fork

/-! # Several processes

`CreateLogfileInternal` locks a file that it opens, to avoid two clients logging to the same file. The lock belongs to the
process, so it goes with the first descriptor of the file that the process closes: with one of another logger, or with one
of an attempt that fails behind `open`. -/

namespace Glog.LogFile
open Run Files

structure Clients where
  loggers : Int → Loggers
  locks : Locks Nat Int

inductive ClientAction
  /-- A call in a process. The files in the list have been opened and closed again, without a lock or a stream. -/
  | run (pid : Int) (op : LoggerOp) (failed : List Nat)
  | fork (parent child : Int)
  | exit (pid : Int) (p : Process)

/-- The logger that an operation is about. -/
def LoggerOp.target : LoggerOp → Option (Severity × Env)
  | .write i env _ _ _ | .setLogDestination i env _ | .setExtension i env _ | .setSymlink i env _ | .flush i env =>
    some (i, env)
  | .restart _ => none

section
variable (cfg : Config)

/-- What becomes of the object of the logger. -/
def LoggerOp.apply (s : Loggers) (o : LogFileObject) : LoggerOp → LogFileObject
  | .write _ env forceFlush timestamp message => (LogFile.write cfg env forceFlush timestamp message o s.process).1
  | .setLogDestination _ _ basename => setBasename basename o
  | .setExtension _ _ ext => LogFile.setExtension ext o
  | .setSymlink _ _ basename => setSymlinkBasename basename o
  | .flush _ env => LogFile.flush cfg env.now o
  | .restart _ => o

/-- The files that an object has closed on the way from `o` to `o'`. -/
def closedFiles (o o' : LogFileObject) : List Nat := (o'.closed.drop o.closed.length).map Handle.inode

/-- The file that it has opened and locked. -/
def lockedFile (o o' : LogFileObject) : Option Nat :=
  if o.file.isSome ∧ o'.closed.length = o.closed.length then none else o'.file.map Handle.inode

def stepClients (s : Clients) : ClientAction → Clients
  | .run pid op failed =>
    match op.target with
    | none => s
    | some (i, env) =>
      let o := logDestination cfg env i (s.loggers pid)
      let o' := op.apply cfg (s.loggers pid) o
      ⟨Function.update s.loggers pid (stepAll cfg (s.loggers pid) op),
        (s.locks.close pid (closedFiles o o' ++ failed)).lock pid (lockedFile o o')⟩
  | .fork parent child => ⟨Function.update s.loggers child (s.loggers parent), s.locks⟩
  | .exit pid p => ⟨Function.update s.loggers pid (.start p), s.locks.exit pid⟩

def Clients.start (p : Process) : Clients := ⟨fun _ => .start p, fun _ => none⟩

/-- The process runs the operation itself, a file that it opens is not locked by another one, and only an operation that
opens files may do so in vain. A child has a pid that no file of its parent has. -/
def Possible (s : Clients) : ClientAction → Prop
  | .run pid op failed => op.RunsIn pid ∧ ∀ i env, op.target = some (i, env) →
      let o := logDestination cfg env i (s.loggers pid)
      let o' := op.apply cfg (s.loggers pid) o
      (∀ f, lockedFile o o' = some f → s.locks.Free pid f) ∧ (o'.opens = o.opens → failed = [])
  | .fork parent child => parent ≠ child ∧ ∀ i o h, (s.loggers parent).object i = some o → o.file = some h → h.pid ≠ child
  | .exit _ _ => True

/-- A file that another logger of the process has opened is not closed, or it is opened again. -/
def SparesOthers (s : Clients) : ClientAction → Prop
  | .run pid op failed => ∀ i env, op.target = some (i, env) →
      let o := logDestination cfg env i (s.loggers pid)
      let o' := op.apply cfg (s.loggers pid) o
      ∀ j o₁ h, j ≠ i → (s.loggers pid).object j = some o₁ → o₁.file = some h → h.pid = pid →
        h.inode ∈ closedFiles o o' ++ failed → lockedFile o o' = some h.inode
  | .fork _ _ | .exit _ _ => True

end

/-- A process has the lock on every file that it has opened. -/
def Held (s : Clients) : Prop :=
  ∀ pid i o h, (s.loggers pid).object i = some o → o.file = some h → h.pid = pid → s.locks h.inode = some pid

/-! ### What becomes of an object -/

section
variable {cfg : Config} {env : Env} {o o' : LogFileObject} {h h' : Handle}

/-- An operation goes on with the file that is open, or it locks the file that is open behind it. -/
inductive Operated (o o' : LogFileObject) : Prop
  | stays (h h' : Handle) (hfile : o.file = some h) (hfile' : o'.file = some h') (hgrown : Grown h h')
      (hclosed : o'.closed = o.closed) (hopens : o'.opens = o.opens)
  | moves (hlocked : lockedFile o o' = o'.file.map Handle.inode)
      (hclosed : o'.closed = o.closed ∨ o'.closed = o.closed ++ o.file.toList)

theorem operated_of_same (hfile : o'.file = o.file) (hclosed : o'.closed = o.closed) (hopens : o'.opens = o.opens) :
    Operated o o' := by
  cases hold : o.file with
  | some h => exact .stays h h hold (hfile.trans hold) (grown_refl h) hclosed hopens
  | none =>
    refine .moves ?_ (Or.inl hclosed)
    unfold lockedFile
    rw [hold, if_neg fun h => Bool.false_ne_true h.1]

theorem operated_of_closed (hclosed : o'.closed = o.closed ++ o.file.toList) : Operated o o' := by
  refine .moves ?_ (Or.inr hclosed)
  unfold lockedFile
  rw [if_neg]
  rintro ⟨hsome, hlength⟩
  obtain ⟨h, hfile⟩ := Option.isSome_iff_exists.mp hsome
  rw [hclosed, hfile] at hlength
  simp at hlength

theorem write_operated {force : Bool} {timestamp : Int} {message : Text} {p : Process} :
    Operated o (write cfg env force timestamp message o p).1 := by
  by_cases hbase : o.baseFilenameSelected ∧ o.baseFilename = []
  · rw [write, if_pos hbase]
    exact operated_of_same rfl rfl rfl
  · have hclosed : (write cfg env force timestamp message o p).1.closed =
        (rollIfNeeded (checkNeedRollLogFiles cfg env timestamp o p).1 o).closed := write_closed cfg env hbase
    cases hneed : (checkNeedRollLogFiles cfg env timestamp o p).1 with
    | true =>
      rw [hneed] at hclosed
      exact operated_of_closed hclosed
    | false =>
      rw [hneed] at hclosed
      cases hold : o.file with
      | none =>
        refine .moves ?_ (Or.inl hclosed)
        unfold lockedFile
        rw [hold, if_neg fun h => Bool.false_ne_true h.1]
      | some h =>
        cases prepare_prepared cfg env timestamp o p with
        | stays h₀ hfile hneed' heq =>
          have hwrite : (write cfg env force timestamp message o p).1 =
              (writeMessage cfg env force message o (checkNeedRollLogFiles cfg env timestamp o p).2).1 := by
            rw [write, if_neg hbase, heq]
            rfl
          have hdirected : Directed (fun _ => False) o (write cfg env force timestamp message o p).1 := by
            rw [hwrite]
            exact writeMessage_directed
          have hsome : (write cfg env force timestamp message o p).1.file.isSome := by
            rw [hwrite]
            exact writeMessage_isSome cfg env (by rw [hold]; rfl)
          obtain ⟨h', hfile'⟩ := Option.isSome_iff_exists.mp hsome
          obtain ⟨h₁, hfile₁, hgrown⟩ := writeMessage_grown cfg env (hwrite ▸ hfile')
          obtain ⟨paths, hopens, hnone⟩ := hdirected.opens
          have hnil : paths = [] := List.eq_nil_iff_forall_not_mem.mpr hnone
          rw [hnil, List.append_nil] at hopens
          exact .stays h₁ h' hfile₁ hfile' hgrown hclosed hopens
        | reopens rolled hrolled hnone =>
          rw [hrolled, hneed] at hnone
          cases hold.symm.trans hnone
        | makes rolled hrolled hnone =>
          rw [hrolled, hneed] at hnone
          cases hold.symm.trans hnone

theorem setBasename_operated (basename : Text) : Operated o (setBasename basename o) := by
  unfold setBasename
  dsimp only
  split
  · split
    · exact operated_of_closed rfl
    · exact operated_of_same rfl rfl rfl
  · exact operated_of_same rfl rfl rfl

theorem setExtension_operated (ext : Text) : Operated o (setExtension ext o) := by
  unfold setExtension
  split
  · dsimp only
    split
    · exact operated_of_closed rfl
    · exact operated_of_same rfl rfl rfl
  · exact operated_of_same rfl rfl rfl

theorem file_of_setBasename {basename : Text} (hfile : (setBasename basename o).file = some h) : o.file = some h := by
  unfold setBasename at hfile
  dsimp only at hfile
  split at hfile
  · split at hfile
    · cases hfile
    · exact hfile
  · exact hfile

theorem file_of_setExtension {ext : Text} (hfile : (setExtension ext o).file = some h) : o.file = some h := by
  unfold setExtension at hfile
  split at hfile
  · dsimp only at hfile
    split at hfile
    · cases hfile
    · exact hfile
  · exact hfile

theorem apply_operated {s : Loggers} (op : LoggerOp) : Operated o (op.apply cfg s o) := by
  cases op with
  | write i env force timestamp message => exact write_operated
  | setLogDestination i env basename => exact setBasename_operated basename
  | setExtension i env ext => exact setExtension_operated ext
  | setSymlink i env basename => exact operated_of_same rfl rfl rfl
  | flush i env =>
    exact operated_of_same (flush_file cfg env.now o) (flush_closed cfg env.now o) (flush_opens cfg env.now o)
  | restart p => exact operated_of_same rfl rfl rfl

/-- Only the open file is closed. -/
theorem Operated.closedFiles (h : Operated o o') {f : Nat} (hf : f ∈ closedFiles o o') :
    ∃ h, o.file = some h ∧ h.inode = f := by
  have hcases : o'.closed = o.closed ∨ o'.closed = o.closed ++ o.file.toList := by
    cases h with
    | stays h h' hfile hfile' hgrown hclosed hopens => exact Or.inl hclosed
    | moves hlocked hclosed => exact hclosed
  unfold LogFile.closedFiles at hf
  rcases hcases with hclosed | hclosed
  · rw [hclosed, List.drop_length] at hf
    cases hf
  · rw [hclosed, List.drop_left, List.mem_map] at hf
    obtain ⟨h, hmem, rfl⟩ := hf
    exact ⟨h, Option.mem_toList.mp hmem, rfl⟩

/-! ### What becomes of the clients -/

variable {s : Loggers} {op : LoggerOp} {i j : Severity}

theorem object_stepAll (cfg : Config) (s : Loggers) (htarget : op.target = some (i, env)) :
    (stepAll cfg s op).object i = some (op.apply cfg s (logDestination cfg env i s)) := by
  cases op <;> cases htarget <;> exact if_pos rfl

theorem object_stepAll_ne (htarget : op.target = some (i, env)) (hne : j ≠ i) :
    (stepAll cfg s op).object j = s.object j := by
  cases op <;> cases htarget <;> exact if_neg hne

theorem file_logDestination (hfile : (logDestination cfg env i s).file = some h) :
    ∃ o, s.object i = some o ∧ o.file = some h := by
  unfold logDestination at hfile
  cases hobject : s.object i with
  | none =>
    rw [hobject] at hfile
    cases hfile
  | some o =>
    rw [hobject] at hfile
    exact ⟨o, rfl, hfile⟩

end

section
variable {cfg : Config} {s : Clients} {a : ClientAction} {i : Severity} {o o' : LogFileObject} {l : Loggers} {pid : Int}
  {failed : List Nat}

theorem held_run (hheld : Held s)
    (hold : ∀ h, o.file = some h → ∃ o₀, (s.loggers pid).object i = some o₀ ∧ o₀.file = some h)
    (hself : l.object i = some o') (hothers : ∀ j, j ≠ i → l.object j = (s.loggers pid).object j)
    (hoperated : Operated o o')
    (hfree : ∀ f, lockedFile o o' = some f → s.locks.Free pid f) (hfailed : o'.opens = o.opens → failed = []) :
    Held ⟨Function.update s.loggers pid l, (s.locks.close pid (closedFiles o o' ++ failed)).lock pid (lockedFile o o')⟩ ↔
      ∀ j o₁ h, j ≠ i → (s.loggers pid).object j = some o₁ → o₁.file = some h → h.pid = pid →
        h.inode ∈ closedFiles o o' ++ failed → lockedFile o o' = some h.inode := by
  constructor
  · intro hafter j o₁ h hne hobject hfile hown
    have hlocked := hheld pid j o₁ h hobject hfile hown
    have hobject' : (Function.update s.loggers pid l pid).object j = some o₁ := by
      rw [Function.update_self, hothers j hne]
      exact hobject
    exact (Locks.lock_close_iff hlocked).mp (hafter pid j o₁ h hobject' hfile hown)
  · intro hspares c j o₁ h hobject hfile hown
    dsimp only at hobject ⊢
    rcases eq_or_ne c pid with rfl | hc
    · rw [Function.update_self] at hobject
      rcases eq_or_ne j i with rfl | hj
      · cases hself.symm.trans hobject
        cases hoperated with
        | stays h₀ h₁ hfile₀ hfile₁ hgrown hclosed hopens =>
          -- The file is the one that was open before, and none has been closed.
          cases hfile₁.symm.trans hfile
          obtain ⟨o₀, hobject₀, hfile₀⟩ := hold h₀ hfile₀
          obtain ⟨chunks, rfl⟩ := hgrown
          refine (Locks.lock_close_iff (hheld c j o₀ h₀ hobject₀ hfile₀ hown)).mpr fun hmem => ?_
          rw [hfailed hopens, closedFiles, hclosed, List.drop_length] at hmem
          cases hmem
        | moves hlocked hclosed =>
          rw [hlocked, hfile]
          exact Locks.lock_close_opened
      · rw [hothers j hj] at hobject
        exact (Locks.lock_close_iff (hheld c j o₁ h hobject hfile hown)).mpr (hspares j o₁ h hj hobject hfile hown)
    · rw [Function.update_of_ne hc] at hobject
      exact Locks.lock_close_of_ne (hheld c j o₁ h hobject hfile hown) hc hfree

/-- The locks are kept by exactly the steps that spare the files of the other loggers. -/
theorem held_step (hheld : Held s) (hpossible : Possible cfg s a) : Held (stepClients cfg s a) ↔ SparesOthers cfg s a := by
  cases a with
  | run pid op failed =>
    obtain ⟨-, hrules⟩ := hpossible
    cases htarget : op.target with
    | none =>
      have hstep : stepClients cfg s (.run pid op failed) = s := by
        simp only [stepClients, htarget]
      rw [hstep]
      refine ⟨fun _ i env heq => ?_, fun _ => hheld⟩
      cases htarget.symm.trans heq
    | some target =>
      obtain ⟨i, env⟩ := target
      obtain ⟨hfree, hfailed⟩ := hrules i env htarget
      have hrun := held_run hheld (fun h hfile => file_logDestination hfile)
        (object_stepAll cfg (s.loggers pid) htarget) (fun j hj => object_stepAll_ne htarget hj) (apply_operated op)
        hfree hfailed
      simp only [stepClients, SparesOthers, htarget]
      refine hrun.trans ⟨fun h i' env' heq => ?_, fun h => h i env rfl⟩
      cases heq
      exact h
  | fork parent child =>
    obtain ⟨hne, hfresh⟩ := hpossible
    refine ⟨fun _ => trivial, fun _ c j o₁ h hobject hfile hown => ?_⟩
    change (Function.update s.loggers child (s.loggers parent) c).object j = some o₁ at hobject
    rcases eq_or_ne c child with rfl | hc
    · rw [Function.update_self] at hobject
      exact absurd hown (hfresh j o₁ h hobject hfile)
    · rw [Function.update_of_ne hc] at hobject
      exact hheld c j o₁ h hobject hfile hown
  | exit pid p =>
    refine ⟨fun _ => trivial, fun _ c j o₁ h hobject hfile hown => ?_⟩
    change (Function.update s.loggers pid (.start p) c).object j = some o₁ at hobject
    rcases eq_or_ne c pid with rfl | hc
    · rw [Function.update_self] at hobject
      cases hobject
    · rw [Function.update_of_ne hc] at hobject
      exact Locks.exit_of_ne (hheld c j o₁ h hobject hfile hown) hc

theorem held_start (p : Process) : Held (.start p) := fun _ _ _ _ hobject => by cases hobject

/-- In every run of processes that write, fork and end, the locks on the open files are kept exactly if no process closes a
    file that another logger of it has opened, or it opens it again in the same step. -/
theorem locks_held_iff (p : Process) (as : List ClientAction)
    (hpossible : Each (stepClients cfg) (Possible cfg) (.start p) as) :
    Always (stepClients cfg) Held (.start p) as ↔ Each (stepClients cfg) (SparesOthers cfg) (.start p) as :=
  always_iff_each_within (fun _ _ => held_step) (held_start p) hpossible

/-- The environment of a second process, to which another file is opened. -/
def otherEnv : Env := { plainEnv with pid := 8, openFile := fun _ _ => .success 2 true }

/-- Each of two processes writes a message. -/
def twoClients : List ClientAction :=
  [.run 7 (.write .info plainEnv false 0 ['a']) [], .run 8 (.write .info otherEnv false 0 ['b']) []]

theorem twoClients_possible : Each (stepClients plainConfig) (Possible plainConfig) (.start plainProcess) twoClients := by
  refine ⟨⟨rfl, fun i env heq => ?_⟩, ⟨rfl, fun i env heq => ?_⟩, trivial⟩
  · cases heq
    exact ⟨fun f _ => Or.inl rfl, fun _ => rfl⟩
  · cases heq
    refine ⟨fun f hlocked => Or.inl ?_, fun _ => rfl⟩
    have hfile : lockedFile (logDestination plainConfig otherEnv .info (.start plainProcess))
        ((LoggerOp.write .info otherEnv false 0 ['b']).apply plainConfig (.start plainProcess)
          (logDestination plainConfig otherEnv .info (.start plainProcess))) = some 2 := by decide
    cases hfile.symm.trans hlocked
    decide

theorem locks_held_iff_two : Always (stepClients plainConfig) Held (.start plainProcess) twoClients ↔
    Each (stepClients plainConfig) (SparesOthers plainConfig) (.start plainProcess) twoClients :=
  locks_held_iff plainProcess twoClients twoClients_possible

/-- Two loggers of a process have opened the same file, and one of them gets another name. -/
theorem not_held : ¬ ∀ as, Each (stepClients plainConfig) (Possible plainConfig) (.start plainProcess) as →
    Always (stepClients plainConfig) Held (.start plainProcess) as := by
  intro h
  have hpossible : Each (stepClients plainConfig) (Possible plainConfig) (.start plainProcess)
      [.run 7 (.write .info plainEnv false 0 ['a']) [], .run 7 (.write .warning plainEnv false 0 ['a']) [],
        .run 7 (.setLogDestination .warning plainEnv ['b']) []] := by
    refine ⟨⟨rfl, fun i env heq => ?_⟩, ⟨rfl, fun i env heq => ?_⟩, ⟨trivial, fun i env heq => ?_⟩, trivial⟩
    · cases heq
      exact ⟨fun f _ => Or.inl rfl, fun _ => rfl⟩
    · cases heq
      refine ⟨fun f hlocked => Or.inr ?_, fun _ => rfl⟩
      cases hlocked
      decide
    · cases heq
      exact ⟨fun f hlocked => (by cases hlocked), fun _ => rfl⟩
  obtain ⟨-, -, -, hheld⟩ := h _ hpossible
  exact absurd (hheld 7 .info _ _ rfl rfl rfl) (by decide)

/-! ### One logger for a file -/

/-- No two loggers of a process have the same file open. -/
def Apart (s : Clients) : Prop :=
  ∀ pid i j o o' h h', i ≠ j → (s.loggers pid).object i = some o → (s.loggers pid).object j = some o' → o.file = some h →
    o'.file = some h' → h.inode ≠ h'.inode

/-- No file is opened that another logger of the process has open. -/
def OpensAlone (cfg : Config) (s : Clients) : ClientAction → Prop
  | .run pid op failed => ∀ i env, op.target = some (i, env) →
      let o := logDestination cfg env i (s.loggers pid)
      let o' := op.apply cfg (s.loggers pid) o
      ∀ f, lockedFile o o' = some f ∨ f ∈ failed → ∀ j o₁ h, j ≠ i → (s.loggers pid).object j = some o₁ → o₁.file = some h →
        h.inode ≠ f
  | .fork _ _ | .exit _ _ => True

theorem sparesOthers_of_alone (hapart : Apart s) (halone : OpensAlone cfg s a) : SparesOthers cfg s a := by
  cases a with
  | run pid op failed =>
    intro i env htarget
    dsimp only
    intro j o₁ h hj hobject hfile hown hmem
    rcases List.mem_append.mp hmem with hclosed | hfailed
    · obtain ⟨h₀, hfile₀, heq⟩ := (apply_operated op).closedFiles hclosed
      obtain ⟨o₀, hobject₀, hfile₀⟩ := file_logDestination hfile₀
      exact absurd heq (hapart pid i j o₀ o₁ h₀ h (Ne.symm hj) hobject₀ hobject hfile₀ hfile)
    · exact absurd rfl (halone i env htarget h.inode (Or.inr hfailed) j o₁ h hj hobject hfile)
  | fork parent child => trivial
  | exit pid p => trivial

/-- The file of the logger that has run, beside the file of another one. -/
theorem Operated.ne (hoperated : Operated o o') {h h' : Handle} (hfile' : o'.file = some h')
    (hold : ∀ h₀, o.file = some h₀ → h₀.inode ≠ h.inode) (hlocked : ∀ f, lockedFile o o' = some f → h.inode ≠ f) :
    h'.inode ≠ h.inode := by
  cases hoperated with
  | stays h₀ h₁ hfile₀ hfile₁ hgrown hclosed hopens =>
    cases hfile₁.symm.trans hfile'
    obtain ⟨chunks, rfl⟩ := hgrown
    exact hold h₀ hfile₀
  | moves hmoved hclosed =>
    rw [hfile'] at hmoved
    exact Ne.symm (hlocked h'.inode hmoved)

theorem apart_step (hapart : Apart s) (halone : OpensAlone cfg s a) : Apart (stepClients cfg s a) := by
  cases a with
  | run pid op failed =>
    cases htarget : op.target with
    | none =>
      simp only [stepClients, htarget]
      exact hapart
    | some target =>
      obtain ⟨i, env⟩ := target
      have hself := object_stepAll cfg (s.loggers pid) htarget
      have hne : ∀ j o₁ h₁ h, j ≠ i → (s.loggers pid).object j = some o₁ → o₁.file = some h₁ →
          (op.apply cfg (s.loggers pid) (logDestination cfg env i (s.loggers pid))).file = some h → h.inode ≠ h₁.inode := by
        intro j o₁ h₁ h hj hobject hfile₁ hfile
        refine (apply_operated op).ne hfile (fun h₀ hfile₀ => ?_) fun f hlocked => ?_
        · obtain ⟨o₀, hobject₀, hfile₀⟩ := file_logDestination hfile₀
          exact hapart pid i j o₀ o₁ h₀ h₁ (Ne.symm hj) hobject₀ hobject hfile₀ hfile₁
        · exact halone i env htarget f (Or.inl hlocked) j o₁ h₁ hj hobject hfile₁
      intro c j k o₁ o₂ h₁ h₂ hjk hobject₁ hobject₂ hfile₁ hfile₂
      simp only [stepClients, htarget] at hobject₁ hobject₂
      rcases eq_or_ne c pid with rfl | hc
      · rw [Function.update_self] at hobject₁ hobject₂
        rcases eq_or_ne j i with rfl | hj
        · rw [object_stepAll_ne htarget (Ne.symm hjk)] at hobject₂
          cases hself.symm.trans hobject₁
          exact hne k o₂ h₂ h₁ (Ne.symm hjk) hobject₂ hfile₂ hfile₁
        · rw [object_stepAll_ne htarget hj] at hobject₁
          rcases eq_or_ne k i with rfl | hk
          · cases hself.symm.trans hobject₂
            exact Ne.symm (hne j o₁ h₁ h₂ hj hobject₁ hfile₁ hfile₂)
          · rw [object_stepAll_ne htarget hk] at hobject₂
            exact hapart c j k o₁ o₂ h₁ h₂ hjk hobject₁ hobject₂ hfile₁ hfile₂
      · rw [Function.update_of_ne hc] at hobject₁ hobject₂
        exact hapart c j k o₁ o₂ h₁ h₂ hjk hobject₁ hobject₂ hfile₁ hfile₂
  | fork parent child =>
    intro c j k o₁ o₂ h₁ h₂ hjk hobject₁ hobject₂ hfile₁ hfile₂
    simp only [stepClients] at hobject₁ hobject₂
    rcases eq_or_ne c child with rfl | hc
    · rw [Function.update_self] at hobject₁ hobject₂
      exact hapart parent j k o₁ o₂ h₁ h₂ hjk hobject₁ hobject₂ hfile₁ hfile₂
    · rw [Function.update_of_ne hc] at hobject₁ hobject₂
      exact hapart c j k o₁ o₂ h₁ h₂ hjk hobject₁ hobject₂ hfile₁ hfile₂
  | exit pid p =>
    intro c j k o₁ o₂ h₁ h₂ hjk hobject₁ hobject₂ hfile₁ hfile₂
    simp only [stepClients] at hobject₁ hobject₂
    rcases eq_or_ne c pid with rfl | hc
    · rw [Function.update_self] at hobject₁
      cases hobject₁
    · rw [Function.update_of_ne hc] at hobject₁ hobject₂
      exact hapart c j k o₁ o₂ h₁ h₂ hjk hobject₁ hobject₂ hfile₁ hfile₂

/-- Two loggers that have opened the same file are one logger of one process. -/
def OpenedOnce (s : Clients) : Prop :=
  ∀ c d i j o o' h h', (s.loggers c).object i = some o → (s.loggers d).object j = some o' → o.file = some h →
    o'.file = some h' →
    h.pid = c → h'.pid = d → h.inode = h'.inode → c = d ∧ i = j

/-- Two loggers that have the same file open are one logger of one process. -/
def Exclusive (s : Clients) : Prop :=
  ∀ c d i j o o' h h', (s.loggers c).object i = some o → (s.loggers d).object j = some o' → o.file = some h →
    o'.file = some h' →
    h.inode = h'.inode → c = d ∧ i = j

/-- A process forks only while it has no file open. -/
def ForksClosed (s : Clients) : ClientAction → Prop
  | .fork parent _ => ∀ i o, (s.loggers parent).object i = some o → o.file = none
  | .run _ _ _ | .exit _ _ => True

/-- Every process has opened its files itself. -/
def AllOwn (s : Clients) : Prop := ∀ pid i o h, (s.loggers pid).object i = some o → o.file = some h → h.pid = pid

theorem openedOnce_of_held (hheld : Held s) (hapart : Apart s) : OpenedOnce s := by
  intro c d i j o o' h h' hobject hobject' hfile hfile' hown hown' heq
  have hlocked := hheld c i o h hobject hfile hown
  have hlocked' := hheld d j o' h' hobject' hfile' hown'
  obtain rfl : c = d := Option.some.inj (hlocked.symm.trans (heq ▸ hlocked'))
  refine ⟨rfl, ?_⟩
  by_contra hne
  exact hapart c i j o o' h h' hne hobject hobject' hfile hfile' heq

theorem exclusive_of_own (hopened : OpenedOnce s) (hown : AllOwn s) : Exclusive s :=
  fun c d i j o o' h h' hobject hobject' hfile hfile' heq =>
    hopened c d i j o o' h h' hobject hobject' hfile hfile' (hown c i o h hobject hfile)
      (hown d j o' h' hobject' hfile') heq

/-- The file that is open after an operation is the one before, or the process opens it. -/
theorem apply_pid {op : LoggerOp} (hpid : op.RunsIn pid) {h : Handle} (hfile : (op.apply cfg l o).file = some h) :
    h.pid = pid ∨ ∃ h₀, o.file = some h₀ ∧ h.pid = h₀.pid := by
  cases op with
  | write i env force timestamp message =>
    change (LogFile.write cfg env force timestamp message o l.process).1.file = some h at hfile
    by_cases hbase : o.baseFilenameSelected ∧ o.baseFilename = []
    · rw [LogFile.write, if_pos hbase] at hfile
      exact Or.inr ⟨h, hfile, rfl⟩
    · rcases write_open cfg env hbase hfile with ⟨h₀, hold, -, hgrown⟩ | ⟨path, inode, isNew, -, hgrown⟩
      · exact Or.inr ⟨h₀, hold, hgrown.pid_eq.1⟩
      · exact Or.inl (hgrown.pid_eq.1.trans hpid)
  | setLogDestination i env basename => exact Or.inr ⟨h, file_of_setBasename hfile, rfl⟩
  | setExtension i env ext => exact Or.inr ⟨h, file_of_setExtension hfile, rfl⟩
  | setSymlink i env basename => exact Or.inr ⟨h, hfile, rfl⟩
  | flush i env =>
    change (LogFile.flush cfg env.now o).file = some h at hfile
    rw [flush_file] at hfile
    exact Or.inr ⟨h, hfile, rfl⟩
  | restart p => exact hpid.elim

theorem allOwn_step (hown : AllOwn s) (hpossible : Possible cfg s a) (hcloses : ForksClosed s a) :
    AllOwn (stepClients cfg s a) := by
  cases a with
  | run pid op failed =>
    cases htarget : op.target with
    | none =>
      simp only [stepClients, htarget]
      exact hown
    | some target =>
      obtain ⟨i, env⟩ := target
      intro c j o₁ h hobject hfile
      simp only [stepClients, htarget] at hobject
      rcases eq_or_ne c pid with rfl | hc
      · rw [Function.update_self] at hobject
        rcases eq_or_ne j i with rfl | hj
        · cases (object_stepAll cfg (s.loggers c) htarget).symm.trans hobject
          rcases apply_pid hpossible.1 hfile with hpid | ⟨h₀, hfile₀, hpid⟩
          · exact hpid
          · obtain ⟨o₀, hobject₀, hfile₀⟩ := file_logDestination hfile₀
            exact hpid.trans (hown c j o₀ h₀ hobject₀ hfile₀)
        · rw [object_stepAll_ne htarget hj] at hobject
          exact hown c j o₁ h hobject hfile
      · rw [Function.update_of_ne hc] at hobject
        exact hown c j o₁ h hobject hfile
  | fork parent child =>
    intro c j o₁ h hobject hfile
    simp only [stepClients] at hobject
    rcases eq_or_ne c child with rfl | hc
    · rw [Function.update_self] at hobject
      cases (hcloses j o₁ hobject).symm.trans hfile
    · rw [Function.update_of_ne hc] at hobject
      exact hown c j o₁ h hobject hfile
  | exit pid p =>
    intro c j o₁ h hobject hfile
    simp only [stepClients] at hobject
    rcases eq_or_ne c pid with rfl | hc
    · rw [Function.update_self] at hobject
      cases hobject
    · rw [Function.update_of_ne hc] at hobject
      exact hown c j o₁ h hobject hfile

/-- A file that is open when a process forks is open in the parent and in the child. -/
theorem forksClosed_of_exclusive (hpossible : Possible cfg s a) (hexclusive : Exclusive (stepClients cfg s a)) :
    ForksClosed s a := by
  cases a with
  | run pid op failed => trivial
  | exit pid p => trivial
  | fork parent child =>
    intro i o hobject
    by_contra hopen
    obtain ⟨h, hfile⟩ := Option.ne_none_iff_exists'.mp hopen
    have hparent : (Function.update s.loggers child (s.loggers parent) parent).object i = some o := by
      rw [Function.update_of_ne hpossible.1]
      exact hobject
    have hchild : (Function.update s.loggers child (s.loggers parent) child).object i = some o := by
      rw [Function.update_self]
      exact hobject
    exact hpossible.1 (hexclusive parent child i i o o h h hparent hchild hfile hfile rfl).1

/-- In every run of processes that write, fork and end, if no process opens a file that another logger of it has open,
no file is ever opened by two loggers, of one process or of several; and no file is ever open in two of them exactly if
no process forks while it has a file open, which the child would go on writing to. -/
theorem exclusive_clients (p : Process) (as : List ClientAction)
    (h : Each (stepClients cfg) (fun s a => Possible cfg s a ∧ OpensAlone cfg s a) (.start p) as) :
    Always (stepClients cfg) OpenedOnce (.start p) as ∧
      (Always (stepClients cfg) Exclusive (.start p) as ↔ Each (stepClients cfg) ForksClosed (.start p) as) := by
  have hstep : ∀ s a, (Held s ∧ Apart s) → Possible cfg s a ∧ OpensAlone cfg s a →
      Held (stepClients cfg s a) ∧ Apart (stepClients cfg s a) := fun s a hs ha =>
    ⟨(held_step hs.1 ha.1).mpr (sparesOthers_of_alone hs.2 ha.2), apart_step hs.2 ha.2⟩
  have hstart : Held (.start p) ∧ Apart (.start p) := ⟨held_start p, fun _ _ _ _ _ _ _ _ hobject => by cases hobject⟩
  refine ⟨(always_of_each hstep hstart h).imp fun s hs => openedOnce_of_held hs.1 hs.2, ?_, fun hcloses => ?_⟩
  · exact each_of_always (fun s a ha => forksClosed_of_exclusive ha.1) h
  · have hkept : Always (stepClients cfg) (fun s => (Held s ∧ Apart s) ∧ AllOwn s) (.start p) as := by
      refine always_of_each (fun s a hs ha => ⟨hstep s a hs.1 ha.1, allOwn_step hs.2 ha.1.1 ha.2⟩) ?_ (h.and hcloses)
      exact ⟨hstart, fun _ _ _ _ hobject => by cases hobject⟩
    exact hkept.imp fun s hs => exclusive_of_own (openedOnce_of_held hs.1.1 hs.1.2) hs.2

/-- A process forks before it logs, and writes a message, as the child does. -/
def forkedClients : List ClientAction := .fork 7 8 :: twoClients

theorem exclusive_clients_forked : Always (stepClients plainConfig) OpenedOnce (.start plainProcess) forkedClients ∧
    Always (stepClients plainConfig) Exclusive (.start plainProcess) forkedClients := by
  have hforked : stepClients plainConfig (.start plainProcess) (.fork 7 8) = .start plainProcess :=
    congrArg (Clients.mk · _) (Function.update_eq_self 8 _)
  obtain ⟨hfirst, hsecond, -⟩ := twoClients_possible
  have halone : Each (stepClients plainConfig) (fun s a => Possible plainConfig s a ∧ OpensAlone plainConfig s a)
      (.start plainProcess) forkedClients := by
    refine ⟨⟨⟨by decide, fun i o h hobject => (nomatch hobject)⟩, trivial⟩, ?_⟩
    rw [hforked]
    exact ⟨⟨hfirst, fun i env _ f _ j o₁ h _ hobject => (nomatch hobject)⟩,
      ⟨hsecond, fun i env _ f _ j o₁ h _ hobject => (nomatch hobject)⟩, trivial⟩
  obtain ⟨hopened, hexclusive⟩ := exclusive_clients plainProcess forkedClients halone
  exact ⟨hopened, hexclusive.mpr ⟨fun i o hobject => (nomatch hobject), trivial, trivial, trivial⟩⟩

end

end Glog.LogFile
