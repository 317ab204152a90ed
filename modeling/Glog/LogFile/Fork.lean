import Glog.LogFile.Destination
import Glog.LogFile.Loggers

/-! # The files of a forked process

A child inherits the open files of all loggers. `PidHasChanged` tells of the change once, to the logger that
asks first, and the time-based policies never ask. -/

namespace Glog.LogFile

section
variable {cfg : Config} {s t : Loggers} {i : Severity} {o : LogFileObject} {h : Handle}

theorem mem_files : h ∈ s.files ↔ h ∈ s.past ∨ ∃ i o, s.object i = some o ∧ h ∈ o.files := by
  unfold Loggers.files
  rw [List.mem_append, List.mem_flatMap]
  refine or_congr Iff.rfl ⟨fun ⟨i, _, hmem⟩ => ?_, fun ⟨i, o, hobject, hmem⟩ => ⟨i, Severity.mem_all i, ?_⟩⟩
  · cases hobject : s.object i with
    | none =>
      rw [hobject] at hmem
      cases hmem
    | some o =>
      rw [hobject] at hmem
      exact ⟨i, o, hobject, hmem⟩
  · rw [hobject]
    exact hmem

theorem mem_files_setObject {p : Process} (hmem : h ∈ ({ setObject i o s with process := p } : Loggers).files) :
    h ∈ s.files ∨ h ∈ o.files := by
  rcases mem_files.mp hmem with hpast | ⟨j, o', hobject, hmem⟩
  · exact Or.inl (mem_files.mpr (Or.inl hpast))
  · by_cases hj : j = i
    · subst hj
      have hself : some o = some o' := (if_pos rfl).symm.trans hobject
      cases hself
      exact Or.inr hmem
    · have hother : s.object j = some o' := (if_neg hj).symm.trans hobject
      exact Or.inl (mem_files.mpr (Or.inr ⟨j, o', hother, hmem⟩))

theorem mem_files_logDestination {env : Env} (hmem : h ∈ (logDestination cfg env i s).files) : h ∈ s.files := by
  unfold logDestination at hmem
  cases hobject : s.object i with
  | none =>
    rw [hobject] at hmem
    cases hmem
  | some o =>
    rw [hobject] at hmem
    exact mem_files.mpr (Or.inr ⟨i, o, hobject, hmem⟩)

theorem mem_files_of_file (hfile : o.file = some h) : h ∈ o.files := List.mem_append_right _ (Option.mem_toList.mpr hfile)

theorem flush_files (now : Int) (o : LogFileObject) : (flush cfg now o).files = o.files := by
  rw [LogFileObject.files, flush_closed, flush_file, LogFileObject.files]

/-- The messages are written by one process. -/
def LoggerOp.RunsIn (pid : Int) : LoggerOp → Prop
  | .write _ env _ _ _ => env.pid = pid
  | .restart _ => False
  | _ => True

/-- The files after an operation of a process: those that were there, and what `Write` makes of them. -/
theorem stepAll_files {op : LoggerOp} {pid : Int} (hpid : op.RunsIn pid) (hmem : h ∈ (stepAll cfg s op).files) :
    h ∈ s.files ∨ ∃ i env force timestamp message, op = .write i env force timestamp message ∧
      h ∈ (write cfg env force timestamp message (logDestination cfg env i s) s.process).1.files := by
  -- The operations other than `Write` leave the files as they are.
  have hquiet : ∀ i env o', o'.files = (logDestination cfg env i s).files → h ∈ (setObject i o' s).files → h ∈ s.files := by
    intro i env o' hfiles hmem
    rcases mem_files_setObject (p := s.process) hmem with hmem | hmem
    · exact hmem
    · rw [hfiles] at hmem
      exact mem_files_logDestination hmem
  cases op with
  | write i env force timestamp message =>
    rcases mem_files_setObject hmem with hmem | hmem
    · exact Or.inl hmem
    · exact Or.inr ⟨i, env, force, timestamp, message, rfl, hmem⟩
  | setLogDestination i env basename => exact Or.inl (hquiet i env _ setBasename_files hmem)
  | setExtension i env ext => exact Or.inl (hquiet i env _ (setExtension_files ext) hmem)
  | setSymlink i env basename =>
    exact Or.inl (hquiet i env (setSymlinkBasename basename (logDestination cfg env i s)) rfl hmem)
  | flush i env => exact Or.inl (hquiet i env _ (flush_files env.now _) hmem)
  | restart p => exact hpid.elim

theorem Grown.pid_eq {h h' : Handle} (hgrown : Grown h h') : h'.pid = h.pid ∧ h'.isNew = h.isNew := by
  obtain ⟨l, rfl⟩ := hgrown
  exact ⟨rfl, rfl⟩

/-- Every file has been opened by the process. -/
theorem stepAll_pid {op : LoggerOp} {pid : Int} (hpid : op.RunsIn pid) (hall : ∀ h ∈ s.files, h.pid = pid) :
    ∀ h ∈ (stepAll cfg s op).files, h.pid = pid := by
  intro h hmem
  rcases stepAll_files hpid hmem with hold | ⟨i, env, force, timestamp, message, rfl, hwritten⟩
  · exact hall h hold
  · rcases write_files cfg env hwritten with hold | ⟨-, ⟨h₀, hfile, -, hgrown⟩ | ⟨path, inode, isNew, -, hgrown⟩⟩
    · exact hall h (mem_files_logDestination hold)
    · rw [hgrown.pid_eq.1]
      exact hall h₀ (mem_files_logDestination (mem_files_of_file hfile))
    · rw [hgrown.pid_eq.1]
      exact hpid

/-! ### What is written from the buffers

`P` tells of a file, whatever has been written to it. -/

/-- From one object to the other only files that meet `P` have got something from the buffer. -/
def StoresOnly (P : Handle → Prop) (o o' : LogFileObject) : Prop := ∃ l, o'.stores = o.stores ++ l ∧ ∀ h ∈ l, P h

section
variable {P : Handle → Prop} {env : Env} {timestamp : Int} {o' o'' : LogFileObject} {p : Process}

theorem storesOnly_of_eq (h : o'.stores = o.stores) : StoresOnly P o o' := ⟨[], by rw [h, List.append_nil], nofun⟩

theorem StoresOnly.trans (h : StoresOnly P o o') (h' : StoresOnly P o' o'') : StoresOnly P o o'' := by
  obtain ⟨l, heq, hall⟩ := h
  obtain ⟨l', heq', hall'⟩ := h'
  refine ⟨l ++ l', by rw [heq', heq, List.append_assoc], fun h hmem => ?_⟩
  rcases List.mem_append.mp hmem with hmem | hmem
  · exact hall h hmem
  · exact hall' h hmem

theorem emptyBuffer_storesOnly (h : ∀ h, o.file = some h → o.buffered = 0 ∨ P h) : StoresOnly P o o.emptyBuffer := by
  refine ⟨if o.buffered = 0 then [] else o.file.toList, rfl, fun h' hmem => ?_⟩
  split at hmem
  · cases hmem
  · rename_i hbuffered
    exact (h h' (Option.mem_toList.mp hmem)).resolve_left hbuffered

theorem closeFile_storesOnly (h : ∀ h, o.file = some h → o.buffered = 0 ∨ P h) : StoresOnly P o o.closeFile :=
  emptyBuffer_storesOnly h

theorem flush_storesOnly (now : Int) (h : ∀ h, o.file = some h → o.buffered = 0 ∨ P h) :
    StoresOnly P o (flush cfg now o) := by
  unfold flush
  dsimp only
  split
  · exact emptyBuffer_storesOnly h
  · exact storesOnly_of_eq rfl

theorem setBasename_storesOnly {basename : Text}
    (h : o.baseFilename ≠ basename → ∀ h, o.file = some h → o.buffered = 0 ∨ P h) :
    StoresOnly P o (setBasename basename o) := by
  unfold setBasename
  dsimp only
  split
  · rename_i hne
    split
    · exact closeFile_storesOnly (h hne)
    · exact storesOnly_of_eq rfl
  · exact storesOnly_of_eq rfl

theorem setExtension_storesOnly {ext : Text}
    (h : o.filenameExtension ≠ ext → ∀ h, o.file = some h → o.buffered = 0 ∨ P h) :
    StoresOnly P o (setExtension ext o) := by
  unfold setExtension
  split
  · rename_i hne
    dsimp only
    split
    · exact closeFile_storesOnly (h hne)
    · exact storesOnly_of_eq rfl
  · exact storesOnly_of_eq rfl

theorem appendChunk_storesOnly (c : Chunk) (h : ∀ h, o.file = some h → P h) : StoresOnly P o (appendChunk env c o) := by
  refine ⟨if o.buffered + env.taken c ≤ env.holdsBack then [] else o.file.toList, rfl, fun h' hmem => ?_⟩
  split at hmem
  · cases hmem
  · exact h h' (Option.mem_toList.mp hmem)

theorem writeHeader_storesOnly (tm : Tm) (h : ∀ h, o.file = some h → P h) : StoresOnly P o (writeHeader cfg env tm o) := by
  unfold writeHeader
  split
  · generalize fileHeader cfg env o.startTime tm = header
    have happended : StoresOnly P o (appendChunk env (.header header) o) := appendChunk_storesOnly (.header header) h
    exact happended
  · exact storesOnly_of_eq rfl

theorem makeFile_storesOnly (hopened : o.rolloverAttempt + 1 = kRolloverAttemptFrequency →
    ∀ path inode isNew, createdFile cfg env timestamp o p = some (inode, isNew) →
      P ⟨path, inode, isNew, env.pid, timestamp, []⟩) :
    StoresOnly P o (makeFile cfg env timestamp o p).2.1 := by
  rcases makeFile_cases cfg env timestamp o p with ⟨-, heq⟩ | ⟨hdue, made, o₁, p₁, hmade, hattempt, heq⟩
  · rw [heq]
    exact storesOnly_of_eq rfl
  · rw [heq]
    obtain ⟨l, rs, hpruned⟩ := pruned_eq cfg env timestamp o
    rw [hpruned] at hattempt
    cases hattempt with
    | failed base paths _ => exact storesOnly_of_eq rfl
    | success base paths path name inode isNew _ =>
      obtain ⟨l, hstores, hall⟩ := @writeHeader_storesOnly cfg
        { o with
          rolloverAttempt := 0
          retired := o.retired ++ rs
          initialized := true
          tmTime := namingTime cfg timestamp
          baseFilename := base
          file := some ⟨path, inode, isNew, env.pid, timestamp, []⟩
          opens := o.opens ++ (paths ++ [path])
          fileList := insertFile ⟨name, env.indeterminateTime, .created o.creations⟩ _
          creations := o.creations + 1 } P env (namingTime cfg timestamp) fun h hfile => by
            cases hfile
            exact hopened hdue path inode isNew hmade
      exact ⟨l, hstores, hall⟩

/-- A file that is rolled has an empty buffer or meets `P`, and so does a file that is opened. -/
theorem prepare_storesOnly
    (hrolls : (checkNeedRollLogFiles cfg env timestamp o p).1 = true → ∀ h, o.file = some h → o.buffered = 0 ∨ P h)
    (hopened : ∀ path inode isNew, opensFile cfg env timestamp o p = some (inode, isNew) →
      P ⟨path, inode, isNew, env.pid, timestamp, []⟩) : StoresOnly P o (prepare cfg env timestamp o p).2.1 := by
  have hrolled : StoresOnly P o (rollIfNeeded (checkNeedRollLogFiles cfg env timestamp o p).1 o) := by
    cases hneed : (checkNeedRollLogFiles cfg env timestamp o p).1 with
    | true => exact closeFile_storesOnly (hrolls hneed)
    | false => exact storesOnly_of_eq rfl
  cases prepare_prepared cfg env timestamp o p with
  | stays h hfile hneed heq =>
    rw [heq]
    exact storesOnly_of_eq rfl
  | reopens rolled heqRolled hfile l rs path inode isNew _ _ heq =>
    rw [heq]
    rw [← heqRolled] at hrolled
    exact hrolled.trans (storesOnly_of_eq rfl)
  | makes rolled heqRolled hfile l rs paths _ _ hopens heq =>
    rw [heq]
    rw [← heqRolled] at hrolled
    refine (hrolled.trans (storesOnly_of_eq rfl)).trans (makeFile_storesOnly fun hdue path inode isNew hcreated => ?_)
    refine hopened path inode isNew ?_
    rw [hopens, if_pos hdue, ← hcreated]
    exact (createdFile_congr cfg env (by rfl) (by rfl) (by rfl) (by rfl) timestamp _).symm

theorem writeMessage_storesOnly {force : Bool} {message : Text} (hgrown : ∀ h h', Grown h h' → P h → P h')
    (h : ∀ h, o.file = some h → P h) : StoresOnly P o (writeMessage cfg env force message o p).1 := by
  unfold writeMessage
  split
  · exact storesOnly_of_eq rfl
  · have happended : StoresOnly P o (appendChunk env (.message message) o) := appendChunk_storesOnly _ h
    dsimp only
    split
    · exact happended
    · split
      · have hflushed : StoresOnly P (countBytes message.length (appendChunk env (.message message) o))
            (flush cfg env.now (countBytes message.length (appendChunk env (.message message) o))) :=
          flush_storesOnly env.now fun h' hfile => by
            obtain ⟨h₀, hold, hgrows⟩ := appendChunk_grown env hfile
            exact Or.inr (hgrown h₀ h' hgrows (h h₀ hold))
        refine (happended.trans hflushed).trans (storesOnly_of_eq ?_)
        unfold dropLogMemory
        split <;> rfl
      · exact happended

/-- What a `Write` writes goes to files that meet `P`: where one is rolled its buffer is empty, or it meets `P`; a file that
    stays or is opened meets it. -/
theorem write_storesOnly {force : Bool} {message : Text} (hgrown : ∀ h h', Grown h h' → P h → P h')
    (hfile : ¬ (o.baseFilenameSelected = true ∧ o.baseFilename = []) → ∀ h, o.file = some h →
      P h ∨ (checkNeedRollLogFiles cfg env timestamp o p).1 = true ∧ o.buffered = 0)
    (hopened : ¬ (o.baseFilenameSelected = true ∧ o.baseFilename = []) → ∀ path inode isNew,
      opensFile cfg env timestamp o p = some (inode, isNew) → P ⟨path, inode, isNew, env.pid, timestamp, []⟩) :
    StoresOnly P o (write cfg env force timestamp message o p).1 := by
  unfold write
  split
  · exact storesOnly_of_eq rfl
  · rename_i hbase
    have hprepared : StoresOnly P o (prepare cfg env timestamp o p).2.1 :=
      prepare_storesOnly (fun _ h hold => (hfile hbase h hold).symm.imp And.right id) (hopened hbase)
    dsimp only
    split
    · refine hprepared.trans (writeMessage_storesOnly hgrown fun h' hnew => ?_)
      rcases prepare_grown cfg env hnew with ⟨hold, hneed⟩ | ⟨path, inode, isNew, hopens, hgrows⟩
      · refine (hfile hbase h' hold).resolve_right fun hrolls => ?_
        rw [hneed] at hrolls
        cases hrolls.1
      · exact hgrown _ h' hgrows (hopened hbase path inode isNew hopens)
    · exact hprepared

end

/-! ### The child -/

/-- The buffer of a file that another process has opened is empty. -/
def InheritsEmpty (child : Int) (o : LogFileObject) : Prop := ∀ h, o.file = some h → h.pid ≠ child → o.buffered = 0

/-- A `Write` rolls a file that another process has opened, and opens only files that did not exist. A file that is rolled,
    closed or flushed has nothing in its buffer if another process has opened it. -/
def LeavesFiles (cfg : Config) (child : Int) (s : Loggers) : LoggerOp → Prop
  | .write i env _ timestamp _ =>
    let o := logDestination cfg env i s
    ¬ (o.baseFilenameSelected = true ∧ o.baseFilename = []) →
      (∀ h, o.file = some h → h.pid ≠ child → (checkNeedRollLogFiles cfg env timestamp o s.process).1 = true) ∧
        InheritsEmpty child o ∧ ∀ f, opensFile cfg env timestamp o s.process = some f → f.2 = true
  | .setLogDestination i env basename =>
    (logDestination cfg env i s).baseFilename ≠ basename → InheritsEmpty child (logDestination cfg env i s)
  | .setExtension i env ext =>
    (logDestination cfg env i s).filenameExtension ≠ ext → InheritsEmpty child (logDestination cfg env i s)
  | .flush i env => InheritsEmpty child (logDestination cfg env i s)
  | .setSymlink _ _ _ | .restart _ => True

/-- The file is new, and the child has opened it. -/
def Own (child : Int) (h : Handle) : Prop := h.pid = child ∧ h.isNew = true

/-- The files of the child: those that it has opened itself, and the files `l` of other processes. -/
def Split (child : Int) (l : List Handle) (t : Loggers) : Prop := ∀ h ∈ t.files, Own child h ∨ h.pid ≠ child ∧ h ∈ l

variable {child : Int} {l : List Handle}

theorem own_of_grown {h h' : Handle} (hgrown : Grown h h') (hown : Own child h) : Own child h' :=
  ⟨hgrown.pid_eq.1.trans hown.1, hgrown.pid_eq.2.trans hown.2⟩

/-- A file that is open is one of the child, or it has been opened by another process. -/
theorem Split.own_or (hsplit : Split child l t) {env : Env} (hfile : (logDestination cfg env i t).file = some h) :
    Own child h ∨ h.pid ≠ child := (hsplit h (mem_files_logDestination (mem_files_of_file hfile))).imp_right And.left

theorem stepAll_split {op : LoggerOp} (hsplit : Split child l t) (hpid : op.RunsIn child)
    (hleaves : LeavesFiles cfg child t op) :
    Split child l (stepAll cfg t op) := by
  intro h hmem
  rcases stepAll_files hpid hmem with hold | ⟨i, env, force, timestamp, message, rfl, hwritten⟩
  · exact hsplit h hold
  · rcases write_files cfg env hwritten with hold |
      ⟨hbase, ⟨h₀, hfile, hneed, hgrown⟩ | ⟨path, inode, isNew, hopens, hgrown⟩⟩
    · exact hsplit h (mem_files_logDestination hold)
    · left
      rcases hsplit.own_or hfile with hown | hother
      · exact own_of_grown hgrown hown
      · -- The file of another process would have been rolled.
        have hroll := (hleaves hbase).1 h₀ hfile hother
        rw [hneed] at hroll
        cases hroll
    · left
      exact ⟨hgrown.pid_eq.1.trans hpid, hgrown.pid_eq.2.trans ((hleaves hbase).2.2 _ hopens)⟩

/-- The files into which the buffers of a logger have been written. -/
def Loggers.stores (i : Severity) (s : Loggers) : List Handle := (s.object i).elim [] LogFileObject.stores

theorem stores_logDestination (env : Env) (i : Severity) (s : Loggers) :
    (logDestination cfg env i s).stores = s.stores i := by
  unfold logDestination Loggers.stores
  cases s.object i <;> rfl

/-- What the buffers of the other loggers have given does not change. -/
theorem stores_setObject {P : Handle → Prop} {env : Env} {p : Process} (h : StoresOnly P (logDestination cfg env i s) o)
    (j : Severity) : ∃ l, ({ setObject i o s with process := p } : Loggers).stores j = s.stores j ++ l ∧ ∀ h ∈ l, P h := by
  by_cases hj : j = i
  · subst hj
    obtain ⟨l, heq, hall⟩ := h
    rw [stores_logDestination] at heq
    refine ⟨l, ?_, hall⟩
    rw [← heq]
    simp [Loggers.stores, setObject]
  · refine ⟨[], ?_, nofun⟩
    rw [List.append_nil]
    simp [Loggers.stores, setObject, hj]

/-- What an operation of the child writes goes to files of its own. -/
theorem stepAll_stores {op : LoggerOp} (hsplit : Split child l t) (hpid : op.RunsIn child)
    (hleaves : LeavesFiles cfg child t op)
    (j : Severity) : ∃ l, (stepAll cfg t op).stores j = t.stores j ++ l ∧ ∀ h ∈ l, Own child h := by
  have hinherits : ∀ i env, InheritsEmpty child (logDestination cfg env i t) → ∀ h,
      (logDestination cfg env i t).file = some h →
      (logDestination cfg env i t).buffered = 0 ∨ Own child h := fun i env hempty h hfile =>
    (hsplit.own_or hfile).symm.imp_left (hempty h hfile)
  have hquiet : ∀ i env o', StoresOnly (Own child) (logDestination cfg env i t) o' →
      ∃ l, (setObject i o' t).stores j = t.stores j ++ l ∧ ∀ h ∈ l, Own child h := fun i env o' h =>
    stores_setObject (p := t.process) h j
  cases op with
  | write i env force timestamp message =>
    refine stores_setObject (write_storesOnly (fun _ _ => own_of_grown) (fun hbase h hfile => ?_)
      fun hbase path inode isNew hopens => ⟨hpid, (hleaves hbase).2.2 _ hopens⟩) j
    exact (hsplit.own_or hfile).imp_right fun hother =>
      ⟨(hleaves hbase).1 h hfile hother, (hleaves hbase).2.1 h hfile hother⟩
  | setLogDestination i env basename =>
    exact hquiet i env _ (setBasename_storesOnly fun hne => hinherits i env (hleaves hne))
  | setExtension i env ext => exact hquiet i env _ (setExtension_storesOnly fun hne => hinherits i env (hleaves hne))
  | setSymlink i env basename => exact hquiet i env _ (storesOnly_of_eq rfl)
  | flush i env => exact hquiet i env _ (flush_storesOnly env.now (hinherits i env hleaves))
  | restart p => exact hpid.elim

/-- A child that rolls every inherited file before it writes to it, closes and flushes inherited files only where nothing is
    in their buffers, and opens only new files, leaves the files of the parent as they are. It has a file of its own open
    whenever it has written a message. -/
theorem files_of_child {parent : Int} (hne : parent ≠ child) {p : Process}
    (hparent : Run.Reaches (stepAll cfg) (fun _ op => op.RunsIn parent) (.start p) s)
    (hchild : Run.Reaches (stepAll cfg) (fun t op => op.RunsIn child ∧ LeavesFiles cfg child t op) s t) :
    (∀ h ∈ t.files, Own child h ∨ h ∈ s.files) ∧
      (∀ i, ∃ l, t.stores i = s.stores i ++ l ∧ ∀ h ∈ l, Own child h) ∧
      ∀ i env force timestamp message, env.pid = child → LeavesFiles cfg child t (.write i env force timestamp message) →
        Writes cfg env timestamp (logDestination cfg env i t) t.process →
          ∃ o h, (stepAll cfg t (.write i env force timestamp message)).object i = some o ∧ o.file = some h ∧
            Own child h := by
  have hold : ∀ h ∈ s.files, h.pid = parent :=
    hparent.invariant (I := fun s => ∀ h ∈ s.files, h.pid = parent) nofun fun t op ht hpid => stepAll_pid hpid ht
  have hfork : Split child s.files s := fun h hmem => Or.inr ⟨fun hsame => hne ((hold h hmem).symm.trans hsame), hmem⟩
  have hrun : Split child s.files t ∧ ∀ i, ∃ l, t.stores i = s.stores i ++ l ∧ ∀ h ∈ l, Own child h := by
    refine hchild.invariant
      (I := fun t => Split child s.files t ∧ ∀ i, ∃ l, t.stores i = s.stores i ++ l ∧ ∀ h ∈ l, Own child h)
      ⟨hfork, fun i => ⟨[], (List.append_nil _).symm, nofun⟩⟩ ?_
    rintro t op ⟨hsplit, hstores⟩ ⟨hpid, hleaves⟩
    refine ⟨stepAll_split hsplit hpid hleaves, fun i => ?_⟩
    obtain ⟨l, heq, hall⟩ := hstores i
    obtain ⟨l', heq', hall'⟩ := stepAll_stores hsplit hpid hleaves i
    refine ⟨l ++ l', by rw [heq', heq, List.append_assoc], fun h hmem => ?_⟩
    rcases List.mem_append.mp hmem with hmem | hmem
    · exact hall h hmem
    · exact hall' h hmem
  obtain ⟨hsplit, hstores⟩ := hrun
  refine ⟨fun h hmem => (hsplit h hmem).imp_right And.right, hstores,
    fun i env force timestamp message hpid hleaves hwrites => ?_⟩
  obtain ⟨h, h', hprepared, hfile, hgrown⟩ := write_file cfg env hwrites
  refine ⟨_, h', if_pos rfl, hfile, own_of_grown hgrown ?_⟩
  rcases prepare_grown cfg env hprepared with ⟨hopen, hneed⟩ | ⟨path, inode, isNew, hopens, hopened⟩
  · refine (hsplit.own_or hopen).resolve_right fun hother => ?_
    have hroll := (hleaves hwrites.1).1 h hopen hother
    rw [hneed] at hroll
    cases hroll
  · exact ⟨hopened.pid_eq.1.trans hpid, hopened.pid_eq.2.trans ((hleaves hwrites.1).2.2 _ hopens)⟩

end

/-- The buffers of the parent hold back what is not flushed. -/
def parentEnv : Env := { plainEnv with holdsBack := 4096 }

def childEnv : Env := { parentEnv with pid := 8 }

/-- The loggers of two severities have their files open, and have flushed them. -/
def beforeFork : Loggers :=
  [LoggerOp.write .warning parentEnv true 0 ['a'], .write .info parentEnv true 0 ['a']].foldl (stepAll historyConfig)
    (.start plainProcess)

theorem beforeFork_reached :
    Run.Reaches (stepAll historyConfig) (fun _ op => op.RunsIn 7) (.start plainProcess) beforeFork :=
  .foldl fun t op hop => by
    rcases List.mem_cons.mp hop with rfl | hop
    · exact rfl
    · rw [List.mem_singleton.mp hop]
      exact rfl

/-- The child has logged to its `WARNING` file. -/
def afterWarning : Loggers := stepAll historyConfig beforeFork (.write .warning childEnv false 1 ['b'])

theorem files_of_child_warning : (∀ h ∈ afterWarning.files, Own 8 h ∨ h ∈ beforeFork.files) ∧
    (∀ i, ∃ l, afterWarning.stores i = beforeFork.stores i ++ l ∧ ∀ h ∈ l, Own 8 h) ∧
    ∀ i env force timestamp message, env.pid = 8 →
      LeavesFiles historyConfig 8 afterWarning (.write i env force timestamp message) →
      Writes historyConfig env timestamp (logDestination historyConfig env i afterWarning) afterWarning.process →
        ∃ o h, (stepAll historyConfig afterWarning (.write i env force timestamp message)).object i = some o ∧
          o.file = some h ∧ Own 8 h := by
  have hleaves : LeavesFiles historyConfig 8 beforeFork (.write .warning childEnv false 1 ['b']) := by
    refine fun _ => ⟨fun _ _ _ => rfl, fun _ _ _ => rfl, fun f hopens => ?_⟩
    have hnew :
        opensFile historyConfig childEnv 1 (logDestination historyConfig childEnv .warning beforeFork) beforeFork.process =
        some (1, true) := by decide
    rw [hnew] at hopens
    cases hopens
    rfl
  exact files_of_child (by decide) beforeFork_reached (Run.Reaches.start.next _ ⟨rfl, hleaves⟩)

/-- A warning of the child goes to its own `WARNING` file, and then to the `INFO` file of the parent. -/
theorem not_files_of_child : ¬ ∀ (cfg : Config) (parent child : Int) (p : Process) (s t : Loggers), parent ≠ child →
    Run.Reaches (stepAll cfg) (fun _ op => op.RunsIn parent) (.start p) s →
      Run.Reaches (stepAll cfg) (fun _ op => op.RunsIn child) s t → ∀ h ∈ t.files, Own child h ∨ h ∈ s.files := fun h => by
  have hwarning : Run.Reaches (stepAll historyConfig) (fun _ op => op.RunsIn 8) beforeFork
      (stepAll historyConfig beforeFork (.write .warning childEnv true 1 ['b'])) := Run.Reaches.start.next _ rfl
  have hchild : Run.Reaches (stepAll historyConfig) (fun _ op => op.RunsIn 8) beforeFork
      (logToAllLogfiles historyConfig .warning 1 ['b'] (fun _ => childEnv) beforeFork) :=
    .next (LoggerOp.write .info childEnv false 1 ['b']) hwarning rfl
  have hall := h historyConfig 7 8 plainProcess _ _ (by decide) beforeFork_reached hchild
  exact absurd hall (by unfold Own; decide)

/-- What the parent has not flushed is written to its file by a child that rolls. -/
example : ((stepAll historyConfig (stepAll historyConfig (.start plainProcess) (.write .info parentEnv false 0 ['a']))
    (.write .info childEnv false 1 ['b'])).stores .info).map (fun h => (h.pid, h.written)) =
      [(7, [.message ['a']])] := by decide

end Glog.LogFile
