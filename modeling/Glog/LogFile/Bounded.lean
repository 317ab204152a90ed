import Glog.LogFile.Loggers
import Glog.LogFile.LogSize

/-! # The size of the log files

What a file holds is what was in it at the start and what all log file objects have written to it. The limit
of `max_log_size` is kept by a file that its only writer opened empty, as long as the counter of the writer is
asked before each message. -/

namespace Glog.LogFile

/-- The bytes that a list of handles has put into the file `x`. -/
def bytesIn (x : Nat) (l : List Handle) : Nat := ((l.filter fun h => h.inode == x).map Handle.size).sum

theorem bytesIn_append (x : Nat) (l l' : List Handle) : bytesIn x (l ++ l') = bytesIn x l + bytesIn x l' := by
  simp [bytesIn]

theorem bytesIn_singleton (x : Nat) (h : Handle) : bytesIn x [h] = if h.inode = x then h.size else 0 := by
  unfold bytesIn
  by_cases hx : h.inode = x <;> simp [hx]

def LogFileObject.bytes (x : Nat) (o : LogFileObject) : Nat := bytesIn x o.files

/-- The size of the file `x`, which has `start x` bytes at the start of the run. -/
def totalBytes (start : Nat → Nat) (s : Loggers) (x : Nat) : Nat := start x + bytesIn x s.files

/-- The bytes of the headers that have been written. -/
def Handle.headerSize (h : Handle) : Nat :=
  (h.written.map fun c => match c with
    | .header text => text.length
    | .message _ => 0).sum

/-! ### One object

`T` is what the file holds besides what the object has written. -/

section
variable {cfg : Config} {env : Env} {P : Nat → Prop} {T : Nat → Nat} {timestamp : Int} {o o' : LogFileObject} {p : Process}

/-- The counter is not below the size of the open file. -/
def Within (T : Nat → Nat) (o : LogFileObject) : Prop := ∀ h, o.file = some h → T h.inode + o.bytes h.inode ≤ o.fileLength

theorem within_of_none (h : o.file = none) : Within T o := fun h' hfile => by
  rw [h] at hfile
  cases hfile

theorem bytes_of_files (h : o'.files = o.files) (x : Nat) : o'.bytes x = o.bytes x := by
  rw [LogFileObject.bytes, h, LogFileObject.bytes]

theorem files_roll (o : LogFileObject) : (roll o).files = o.files := by
  unfold LogFileObject.files roll LogFileObject.closeFile
  simp

theorem files_rollIfNeeded (need : Bool) (o : LogFileObject) : (rollIfNeeded need o).files = o.files := by
  cases need with
  | true => exact files_roll o
  | false => rfl

/-- A file that has just been opened adds no bytes. -/
theorem bytes_opened {h : Handle} (hnone : o.file = none) (hclosed : o'.closed = o.closed) (hfile : o'.file = some h)
    (hwritten : h.written = []) (x : Nat) : o'.bytes x = o.bytes x := by
  have hsize : h.size = 0 := by
    rw [Handle.size, hwritten]
    rfl
  simp only [LogFileObject.bytes, LogFileObject.files, hnone, hclosed, hfile, Option.toList, List.append_nil,
    bytesIn_append, bytesIn_singleton, hsize, ite_self, Nat.add_zero]

theorem bytes_appendChunk {c : Chunk} {h : Handle} (hfile : o.file = some h) (x : Nat) :
    (appendChunk env c o).bytes x = o.bytes x + if h.inode = x then env.taken c else 0 := by
  simp only [appendChunk, LogFileObject.bytes, LogFileObject.files, hfile, Option.map_some, Option.toList, bytesIn_append,
    bytesIn_singleton, Handle.size_append, Chunk.length_take (env.taken_le c)]
  split <;> omega

/-- The counter is kept, and only the open file has grown, which is the one that was open or one that meets
    `P`. -/
structure Kept (P : Nat → Prop) (T : Nat → Nat) (o o' : LogFileObject) : Prop where
  within : Within T o'
  grows : ∀ x, o'.bytes x = o.bytes x ∨ ∃ h, o'.file = some h ∧ h.inode = x
  opened : ∀ h, o'.file = some h → (∃ h₀, o.file = some h₀ ∧ h₀.inode = h.inode) ∨ P h.inode

/-- Before a message is written the open file keeps the limit. -/
structure Ready (cfg : Config) (P : Nat → Prop) (T : Nat → Nat) (o o' : LogFileObject) : Prop extends Kept P T o o' where
  limit : ∀ h, o'.file = some h → T h.inode + o'.bytes h.inode ≤ maxLogSize cfg * 1048576 + h.headerSize

theorem Kept.bytes_of_none (h : Kept P T o o') (hfile : o'.file = none) (x : Nat) : o'.bytes x = o.bytes x :=
  (h.grows x).resolve_right fun ⟨h', hnew, _⟩ => by
    rw [hfile] at hnew
    cases hnew

theorem ready_of_none (hfile : o'.file = none) (hbytes : ∀ x, o'.bytes x = o.bytes x) : Ready cfg P T o o' where
  within := within_of_none hfile
  limit h hnew := by
    rw [hfile] at hnew
    cases hnew
  grows x := Or.inl (hbytes x)
  opened h hnew := by
    rw [hfile] at hnew
    cases hnew

theorem lt_of_shiftRight_lt {length limit : Nat} (h : length >>> 20 < limit) : length ≤ limit * 1048576 := by
  rw [Nat.shiftRight_eq_div_pow] at h
  omega

/-- The counter is asked before a message is written into a file that stays open. -/
def AsksCounter (cfg : Config) (env : Env) (timestamp : Int) (o : LogFileObject) (p : Process) : Prop :=
  cfg.policy = .day ∨ cfg.policy = .hour → ∀ h, o.file = some h →
    (checkNeedRollLogFiles cfg env timestamp o p).1 = true ∨ o.fileLength >>> 20 < maxLogSize cfg

theorem below_of_asksCounter (hask : AsksCounter cfg env timestamp o p) {h : Handle} (hfile : o.file = some h)
    (hneed : (checkNeedRollLogFiles cfg env timestamp o p).1 = false) : o.fileLength >>> 20 < maxLogSize cfg := by
  cases hpolicy : cfg.policy with
  | day =>
    refine (hask (Or.inl hpolicy) h hfile).resolve_left ?_
    rw [hneed]
    exact Bool.false_ne_true
  | hour =>
    refine (hask (Or.inr hpolicy) h hfile).resolve_left ?_
    rw [hneed]
    exact Bool.false_ne_true
  | size =>
    simp only [checkNeedRollLogFiles, hpolicy] at hneed
    split at hneed
    · cases hneed
    · omega
  | other =>
    simp only [checkNeedRollLogFiles, hpolicy] at hneed
    split at hneed
    · cases hneed
    · omega

theorem rollIfNeeded_ready (h : Within T o) (hask : AsksCounter cfg env timestamp o p) :
    Ready cfg P T o (rollIfNeeded (checkNeedRollLogFiles cfg env timestamp o p).1 o) := by
  have hbytes : ∀ need x, (rollIfNeeded need o).bytes x = o.bytes x :=
    fun need => bytes_of_files (files_rollIfNeeded need o)
  cases hneed : (checkNeedRollLogFiles cfg env timestamp o p).1 with
  | true => exact ready_of_none rfl (hbytes true)
  | false =>
    refine ⟨⟨h, fun x => Or.inl rfl, fun h' hfile => Or.inl ⟨h', hfile, rfl⟩⟩, fun h' hfile => ?_⟩
    have hwithin := h h' hfile
    have hbelow := lt_of_shiftRight_lt (below_of_asksCounter hask hfile hneed)
    change T h'.inode + o.bytes h'.inode ≤ _
    omega

/-- A file that has just been opened is ready. -/
theorem ready_of_opened {h : Handle} (hfile : o'.file = some h) (hempty : T h.inode + o'.bytes h.inode = 0)
    (hgrows : ∀ x, o'.bytes x = o.bytes x) (hopen : P h.inode) : Ready cfg P T o o' where
  within h' hnew := by
    rw [hfile] at hnew
    cases hnew
    omega
  limit h' hnew := by
    rw [hfile] at hnew
    cases hnew
    omega
  grows x := Or.inl (hgrows x)
  opened h' hnew := by
    rw [hfile] at hnew
    cases hnew
    exact Or.inr hopen

/-- The header is counted, and is part of the bound. -/
theorem writeHeader_ready {tm : Tm} {h : Handle} (hfile : o'.file = some h) (hwritten : h.written = [])
    (hempty : T h.inode + o'.bytes h.inode = 0) (hgrows : ∀ x, o'.bytes x = o.bytes x) (hopen : P h.inode) :
    Ready cfg P T o (writeHeader cfg env tm o') := by
  unfold writeHeader
  split
  · generalize fileHeader cfg env o'.startTime tm = header
    have hbytes : ∀ x, (countBytes header.length (appendChunk env (.header header) o')).bytes x =
        o'.bytes x + if h.inode = x then env.taken (.header header) else 0 := bytes_appendChunk hfile
    have htaken : env.taken (.header header) ≤ header.length := env.taken_le _
    have hnow : (countBytes header.length (appendChunk env (.header header) o')).file =
        some { h with written := [.header (header.take (env.taken (.header header)))] } := by
      simp only [countBytes, appendChunk, hfile, Option.map_some, hwritten, List.nil_append, Chunk.take]
    have hgrown : T h.inode + (countBytes header.length (appendChunk env (.header header) o')).bytes h.inode =
        env.taken (.header header) := by
      rw [hbytes, if_pos rfl]
      omega
    refine ⟨⟨fun h' hnew => ?_, fun x => ?_, fun h' hnew => ?_⟩, fun h' hnew => ?_⟩
    · rw [hnow] at hnew
      cases hnew
      exact Nat.le_trans (Nat.le_of_eq hgrown) (Nat.le_trans htaken (Nat.le_add_left ..))
    · by_cases hx : h.inode = x
      · exact Or.inr ⟨_, hnow, hx⟩
      · left
        rw [hbytes, if_neg hx, Nat.add_zero, hgrows]
    · rw [hnow] at hnew
      cases hnew
      exact Or.inr hopen
    · rw [hnow] at hnew
      cases hnew
      have hsize : Handle.headerSize { h with written := [.header (header.take (env.taken (.header header)))] } =
          env.taken (.header header) := by
        simp [Handle.headerSize, htaken]
      rw [hsize]
      exact Nat.le_trans (Nat.le_of_eq hgrown) (Nat.le_add_left ..)
  · exact ready_of_opened hfile hempty hgrows hopen

theorem makeFile_ready (hfile : o'.file = none) (hgrows : ∀ x, o'.bytes x = o.bytes x)
    (hempty : ∀ x, P x → T x + o.bytes x = 0)
    (hopens : o'.rolloverAttempt + 1 = kRolloverAttemptFrequency → ∀ f,
      createdFile cfg env timestamp o' p = some f → P f.1) :
    Ready cfg P T o (makeFile cfg env timestamp o' p).2.1 := by
  rcases makeFile_cases cfg env timestamp o' p with ⟨-, heq⟩ | ⟨hdue, made, o₁, p₁, hmade, hattempt, heq⟩
  · rw [heq]
    exact ready_of_none hfile hgrows
  · rw [heq]
    obtain ⟨l, rs, hpruned⟩ := pruned_eq cfg env timestamp o'
    rw [hpruned] at hattempt
    cases hattempt with
    | failed base paths _ => exact ready_of_none hfile hgrows
    | success base paths path name inode isNew _ =>
      have hP : P inode := hopens hdue _ hmade
      have hsame : ∀ x, LogFileObject.bytes x
          { o' with
            rolloverAttempt := 0
            retired := o'.retired ++ rs
            initialized := true
            tmTime := namingTime cfg timestamp
            baseFilename := base
            file := some ⟨path, inode, isNew, env.pid, timestamp, []⟩
            opens := o'.opens ++ (paths ++ [path])
            fileList := insertFile ⟨name, env.indeterminateTime, .created o'.creations⟩ l
            creations := o'.creations + 1 } = o.bytes x := fun x => by
        rw [← hgrows]
        exact bytes_opened (h := ⟨path, inode, isNew, env.pid, timestamp, []⟩) hfile (by rfl) (by rfl) (by rfl) x
      refine writeHeader_ready rfl rfl ?_ hsame hP
      rw [hsame]
      exact hempty inode hP

theorem prepare_ready (h : Within T o) (hask : AsksCounter cfg env timestamp o p) (hempty : ∀ x, P x → T x + o.bytes x = 0)
    (hopens : ∀ f, opensFile cfg env timestamp o p = some f → P f.1) :
    Ready cfg P T o (prepare cfg env timestamp o p).2.1 := by
  have hrolled : ∀ x, (rollIfNeeded (checkNeedRollLogFiles cfg env timestamp o p).1 o).bytes x = o.bytes x :=
    bytes_of_files (files_rollIfNeeded _ o)
  cases prepare_prepared cfg env timestamp o p with
  | stays h₀ hfile hneed heq =>
    have hready : Ready cfg P T o (rollIfNeeded (checkNeedRollLogFiles cfg env timestamp o p).1 o) :=
      rollIfNeeded_ready h hask
    rw [hneed] at hready
    rw [heq]
    exact hready
  | reopens rolled heqRolled hfile l rs path inode isNew _ hopened heq =>
    rw [← heqRolled] at hrolled
    rw [heq]
    have hsame : ∀ x, LogFileObject.bytes x
        { rolled with
          fileList := l
          retired := rolled.retired ++ rs
          file := some ⟨path, inode, isNew, env.pid, timestamp, []⟩
          opens := rolled.opens ++ [path]
          initialized := true } = o.bytes x := fun x => by
      rw [← hrolled]
      exact bytes_opened (h := ⟨path, inode, isNew, env.pid, timestamp, []⟩) hfile (by rfl) (by rfl) (by rfl) x
    refine ready_of_opened rfl ?_ hsame (hopens _ hopened)
    rw [hsame]
    exact hempty inode (hopens _ hopened)
  | makes rolled heqRolled hfile l rs paths _ _ hopened heq =>
    rw [← heqRolled] at hrolled
    rw [heq]
    refine makeFile_ready hfile hrolled hempty fun hdue f hcreated => hopens f ?_
    rw [hopened, if_pos hdue, ← hcreated]
    exact (createdFile_congr cfg env (by rfl) (by rfl) (by rfl) (by rfl) timestamp _).symm

/-- A message goes to the open file, behind the same headers. -/
theorem appendChunk_handle {message : Text} {h₀ : Handle} (hopen : o'.file = some h₀) :
    ∃ h₁, (appendChunk env (.message message) o').file = some h₁ ∧ h₁.inode = h₀.inode ∧ h₁.headerSize = h₀.headerSize := by
  refine ⟨{ h₀ with written := h₀.written ++ [(Chunk.message message).take (env.taken (.message message))] }, ?_, rfl, ?_⟩
  · rw [appendChunk, hopen, Option.map_some]
  · simp [Handle.headerSize, Chunk.take]

/-- Where a message is refused for a full disk, nothing of it is stored: what is would not be counted. -/
def RefusedWhole (cfg : Config) (env : Env) (message : Text) (p : Process) : Prop :=
  p.stopWriting = false → cfg.stopLoggingIfFullDisk = true → env.diskFull = true → env.taken (.message message) = 0

theorem writeMessage_kept {force : Bool} {message : Text} (hrefused : RefusedWhole cfg env message p)
    (h : Ready cfg P T o o') :
    Kept P T o (writeMessage cfg env force message o' p).1 ∧
      ∀ h₁, (writeMessage cfg env force message o' p).1.file = some h₁ →
        T h₁.inode + (writeMessage cfg env force message o' p).1.bytes h₁.inode ≤
          maxLogSize cfg * 1048576 + h₁.headerSize + message.length := by
  rcases writeMessage_cases cfg env force message o' p with ⟨-, heq⟩ | ⟨hstop, hfile, hclosed, hlength⟩
  · rw [heq]
    exact ⟨h.toKept, fun h₁ hnew => Nat.le_trans (h.limit h₁ hnew) (Nat.le_add_right ..)⟩
  · generalize (writeMessage cfg env force message o' p).1 = o₁ at hfile hclosed hlength
    have hfiles : o₁.files = (appendChunk env (.message message) o').files := by
      rw [LogFileObject.files, hfile, hclosed]
      rfl
    cases hopen : o'.file with
    | none =>
      have hnone : o₁.file = none := by rw [hfile, appendChunk, hopen, Option.map_none]
      have hsame : o₁.files = o'.files := by
        rw [LogFileObject.files, hnone, hclosed, LogFileObject.files, hopen]
      have hkept : Ready cfg P T o o₁ :=
        ready_of_none hnone fun x => (bytes_of_files hsame x).trans (h.bytes_of_none hopen x)
      exact ⟨hkept.toKept, fun h₁ hnew => by rw [hnone] at hnew; cases hnew⟩
    | some h₀ =>
      have hbytes : ∀ x, o₁.bytes x = o'.bytes x + if h₀.inode = x then env.taken (.message message) else 0 :=
        fun x => (bytes_of_files hfiles x).trans (bytes_appendChunk hopen x)
      have hgrows : ∀ x, h₀.inode ≠ x → o₁.bytes x = o.bytes x := fun x hx => by
        rw [hbytes, if_neg hx, Nat.add_zero]
        rcases h.grows x with hsame | ⟨h', hnew, hinode⟩
        · exact hsame
        · rw [hopen] at hnew
          cases hnew
          exact absurd hinode hx
      have hwithin := h.within h₀ hopen
      have hlimit := h.limit h₀ hopen
      obtain ⟨h₁, hnow, hinode, hheader⟩ := @appendChunk_handle env o' message h₀ hopen
      rw [← hfile] at hnow
      have hgrown : o₁.bytes h₁.inode ≤ o'.bytes h₀.inode + message.length ∧
          T h₁.inode + o₁.bytes h₁.inode ≤ o₁.fileLength := by
        have htaken : env.taken (.message message) ≤ message.length := env.taken_le _
        rw [hbytes, hinode, if_pos rfl]
        rcases hlength with hlength | ⟨⟨hflag, hfull⟩, hlength⟩
        · rw [hlength]
          omega
        · rw [hlength, hrefused hstop hflag hfull]
          omega
      refine ⟨⟨fun h' hnew => ?_, fun x => ?_, fun h' hnew => ?_⟩, fun h' hnew => ?_⟩
      · rw [hnow] at hnew
        cases hnew
        exact hgrown.2
      · by_cases hx : h₀.inode = x
        · exact Or.inr ⟨h₁, hnow, hinode.trans hx⟩
        · exact Or.inl (hgrows x hx)
      · rw [hnow] at hnew
        cases hnew
        rw [hinode]
        exact h.opened h₀ hopen
      · rw [hnow] at hnew
        cases hnew
        have hless := hgrown.1
        rw [hinode] at hless ⊢
        rw [hheader]
        omega

theorem write_kept {force : Bool} {message : Text} (h : Within T o) (hask : AsksCounter cfg env timestamp o p)
    (hrefused : RefusedWhole cfg env message p)
    (hempty : ∀ x, P x → T x + o.bytes x = 0) (hopens : ∀ f, opensFile cfg env timestamp o p = some f → P f.1) :
    Kept P T o (write cfg env force timestamp message o p).1 ∧
      (Writes cfg env timestamp o p → ∀ h₁, (write cfg env force timestamp message o p).1.file = some h₁ →
        T h₁.inode + (write cfg env force timestamp message o p).1.bytes h₁.inode ≤
          maxLogSize cfg * 1048576 + h₁.headerSize + message.length) := by
  have hready := prepare_ready h hask hempty hopens
  unfold write
  split
  · rename_i hempty
    exact ⟨⟨h, fun x => Or.inl rfl, fun h' hfile => Or.inl ⟨h', hfile, rfl⟩⟩, fun hwrites => absurd hempty hwrites.1⟩
  · dsimp only
    split
    · have hrefused' : RefusedWhole cfg env message (prepare cfg env timestamp o p).2.2 := by
        unfold RefusedWhole
        rw [prepare_stopWriting]
        exact hrefused
      obtain ⟨hkept, hbound⟩ := writeMessage_kept hrefused' hready
      exact ⟨hkept, fun _ => hbound⟩
    · rename_i hnot
      exact ⟨hready.toKept, fun hwrites => absurd hwrites.2 hnot⟩

end

/-! ### All objects -/

section
variable {cfg : Config} {start : Nat → Nat} {s s' : Loggers} {i j : Severity} {o : LogFileObject}

def objectBytes (x : Nat) (s : Loggers) (j : Severity) : Nat := (s.object j).elim 0 (LogFileObject.bytes x)

/-- What the file `x` holds besides what the logger of severity `i` has written. -/
def others (start : Nat → Nat) (s : Loggers) (i : Severity) (x : Nat) : Nat :=
  start x + bytesIn x s.past + ((Severity.all.filter (· ≠ i)).map (objectBytes x s)).sum

theorem totalBytes_eq (start : Nat → Nat) (s : Loggers) (i : Severity) (x : Nat) :
    totalBytes start s x = others start s i x + objectBytes x s i := by
  have hsome : ∀ j, bytesIn x ((s.object j).elim [] LogFileObject.files) = objectBytes x s j := fun j => by
    unfold objectBytes
    cases s.object j <;> rfl
  unfold totalBytes others Loggers.files
  cases i <;>
    simp only [Severity.all, List.flatMap_cons, List.flatMap_nil, List.append_nil, bytesIn_append, hsome] <;>
    simp [List.filter] <;> omega

theorem others_setObject (start : Nat → Nat) (s : Loggers) (i : Severity) (o : LogFileObject) (p : Process) :
    others start { setObject i o s with process := p } i = others start s i := by
  funext x
  unfold others
  congr 2
  refine List.map_congr_left fun j hj => ?_
  have hne : j ≠ i := by simpa using (List.mem_filter.mp hj).2
  simp only [objectBytes, setObject, if_neg hne]

theorem objectBytes_setObject (s : Loggers) (i : Severity) (o : LogFileObject) (p : Process) (x : Nat) :
    objectBytes x { setObject i o s with process := p } i = o.bytes x := by
  simp [objectBytes, setObject]

/-- For another logger nothing changes in a file to which the logger has not written. -/
theorem others_setObject_ne {start : Nat → Nat} {s : Loggers} {i j : Severity} {o : LogFileObject} {x : Nat} (hne : j ≠ i)
    (hsame : o.bytes x = objectBytes x s i) (p : Process) :
    others start { setObject i o s with process := p } j x = others start s j x := by
  have hother : objectBytes x { setObject i o s with process := p } j = objectBytes x s j := by
    simp only [objectBytes, setObject, if_neg hne]
  have hbefore := (totalBytes_eq start s i x).symm.trans (totalBytes_eq start s j x)
  have hafter := (totalBytes_eq start { setObject i o s with process := p } i x).symm.trans
    (totalBytes_eq start { setObject i o s with process := p } j x)
  rw [others_setObject, objectBytes_setObject, hsame, hother] at hafter
  omega

/-- Every open file has one writer, whose counter is not below the size of the file. -/
structure Sole (start : Nat → Nat) (s : Loggers) : Prop where
  within : ∀ i o, s.object i = some o → Within (others start s i) o
  apart : ∀ i j o o' h h', i ≠ j → s.object i = some o → s.object j = some o' → o.file = some h → o'.file = some h' →
    h.inode ≠ h'.inode

theorem sole_of_none (h : ∀ i, s.object i = none) : Sole start s where
  within i o hobject := by
    rw [h i] at hobject
    cases hobject
  apart i j o o' h₁ h₂ _ hobject := by
    rw [h i] at hobject
    cases hobject

/-- An operation of a logger that keeps the counter and writes only to its own file. -/
theorem sole_setObject {o' : LogFileObject} {p : Process} {P : Nat → Prop} (h : Sole start s)
    (hold : s.object i = some o ∨ o.file = none ∧ (∀ x, o.bytes x = 0) ∧ s.object i = none)
    (hkept : Kept P (others start s i) o o')
    (hapart : ∀ x, P x → ∀ j o h, j ≠ i → s.object j = some o → o.file = some h → h.inode ≠ x) :
    Sole start { setObject i o' s with process := p } := by
  have hself : ({ setObject i o' s with process := p } : Loggers).object i = some o' := if_pos rfl
  have hother : ∀ j, j ≠ i → ({ setObject i o' s with process := p } : Loggers).object j = s.object j :=
    fun j hj => if_neg hj
  -- No other logger has the file open that is open now.
  have hnew : ∀ j o₁ h' h₁, j ≠ i → s.object j = some o₁ → o₁.file = some h₁ → o'.file = some h' →
      h₁.inode ≠ h'.inode := by
    intro j o₁ h' h₁ hj hobject hfile hfile'
    rcases hkept.opened h' hfile' with ⟨h₀, hfile₀, hinode⟩ | hopen
    · rcases hold with hold | ⟨hnone, -, -⟩
      · rw [← hinode]
        exact h.apart j i o₁ o h₁ h₀ hj hobject hold hfile hfile₀
      · rw [hnone] at hfile₀
        cases hfile₀
    · exact hapart _ hopen j o₁ h₁ hj hobject hfile
  have hbytes : ∀ x, objectBytes x s i = o.bytes x := fun x => by
    rcases hold with hold | ⟨-, hzero, hnone⟩
    · rw [objectBytes, hold]
      rfl
    · rw [objectBytes, hnone, hzero]
      rfl
  refine ⟨fun j o₁ hobject => ?_, fun j k o₁ o₂ h₁ h₂ hne hobject hobject' hfile hfile' => ?_⟩
  · by_cases hj : j = i
    · subst hj
      rw [hself] at hobject
      cases hobject
      rw [others_setObject]
      exact hkept.within
    · rw [hother j hj] at hobject
      intro h₁ hfile
      have hsame : o'.bytes h₁.inode = o.bytes h₁.inode := (hkept.grows h₁.inode).resolve_right fun ⟨h', hfile', hinode⟩ =>
        hnew j o₁ h' h₁ hj hobject hfile hfile' hinode.symm
      rw [others_setObject_ne hj (hsame.trans (hbytes h₁.inode).symm)]
      exact h.within j o₁ hobject h₁ hfile
  · by_cases hj : j = i
    · subst hj
      rw [hself] at hobject
      cases hobject
      rw [hother k (Ne.symm hne)] at hobject'
      exact (hnew k o₂ h₁ h₂ (Ne.symm hne) hobject' hfile' hfile).symm
    · rw [hother j hj] at hobject
      by_cases hk : k = i
      · subst hk
        rw [hself] at hobject'
        cases hobject'
        exact hnew j o₁ h₂ h₁ hj hobject hfile hfile'
      · rw [hother k hk] at hobject'
        exact h.apart j k o₁ o₂ h₁ h₂ hne hobject hobject' hfile hfile'

theorem kept_of_same {P : Nat → Prop} {T : Nat → Nat} {o' : LogFileObject} (h : Within T o) (hfile : o'.file = o.file)
    (hclosed : o'.closed = o.closed) (hlength : o'.fileLength = o.fileLength) : Kept P T o o' := by
  have hfiles : o'.files = o.files := by rw [LogFileObject.files, hfile, hclosed, LogFileObject.files]
  refine ⟨fun h' hnew => ?_, fun x => Or.inl (bytes_of_files hfiles x), fun h' hnew => Or.inl ⟨h', hfile ▸ hnew, rfl⟩⟩
  rw [bytes_of_files hfiles, hlength]
  exact h h' (hfile ▸ hnew)

theorem kept_of_closed {P : Nat → Prop} {T : Nat → Nat} {o' : LogFileObject} (hfile : o'.file = none)
    (hfiles : o'.files = o.files) :
    Kept P T o o' where
  within := within_of_none hfile
  grows x := Or.inl (bytes_of_files hfiles x)
  opened h hnew := by
    rw [hfile] at hnew
    cases hnew

theorem setBasename_kept {P : Nat → Prop} {T : Nat → Nat} {basename : Text} (h : Within T o) :
    Kept P T o (setBasename basename o) := by
  unfold setBasename
  dsimp only
  split
  · split
    · exact kept_of_closed rfl (files_closeFile o)
    · exact kept_of_same h rfl rfl rfl
  · exact kept_of_same h rfl rfl rfl

theorem setExtension_kept {P : Nat → Prop} {T : Nat → Nat} {ext : Text} (h : Within T o) :
    Kept P T o (setExtension ext o) := by
  unfold setExtension
  split
  · dsimp only
    split
    · exact kept_of_closed rfl (files_closeFile o)
    · exact kept_of_same h rfl rfl rfl
  · exact kept_of_same h rfl rfl rfl

/-- What the logger of a severity is before an operation: an object, or a new one. -/
theorem logDestination_cases (cfg : Config) (env : Env) (i : Severity) (s : Loggers) :
    s.object i = some (logDestination cfg env i s) ∨ (logDestination cfg env i s).file = none ∧
      (∀ x, (logDestination cfg env i s).bytes x = 0) ∧ s.object i = none := by
  unfold logDestination
  cases s.object i with
  | none => exact Or.inr ⟨rfl, fun _ => rfl, rfl⟩
  | some o => exact Or.inl rfl

theorem logDestination_within (h : Sole start s) (env : Env) (i : Severity) :
    Within (others start s i) (logDestination cfg env i s) := by
  rcases logDestination_cases cfg env i s with hold | ⟨hnone, -, -⟩
  · exact h.within i _ hold
  · exact within_of_none hnone

theorem objectBytes_logDestination (env : Env) (i : Severity) (s : Loggers) (x : Nat) :
    objectBytes x s i = (logDestination cfg env i s).bytes x := by
  rcases logDestination_cases cfg env i s with hold | ⟨-, hzero, hnone⟩
  · rw [objectBytes, hold]
    rfl
  · rw [objectBytes, hnone, hzero]
    rfl

/-- The file is empty, and no other logger than that of severity `i` has it open. -/
def Free (start : Nat → Nat) (s : Loggers) (i : Severity) (x : Nat) : Prop :=
  totalBytes start s x = 0 ∧ ∀ j o h, j ≠ i → s.object j = some o → o.file = some h → h.inode ≠ x

/-- A `Write` opens only a free file, the counter is asked under every policy, and a message that is refused is not stored
    in part. -/
def KeepsLimit (cfg : Config) (start : Nat → Nat) (s : Loggers) : LoggerOp → Prop
  | .write i env _ timestamp message =>
    (∀ f, opensFile cfg env timestamp (logDestination cfg env i s) s.process = some f → Free start s i f.1) ∧
    AsksCounter cfg env timestamp (logDestination cfg env i s) s.process ∧ RefusedWhole cfg env message s.process
  | _ => True

theorem logDestination_kept {env : Env} {force : Bool} {timestamp : Int} {message : Text} (h : Sole start s)
    (hok : KeepsLimit cfg start s (.write i env force timestamp message)) :
    Kept (Free start s i) (others start s i) (logDestination cfg env i s)
      (write cfg env force timestamp message (logDestination cfg env i s) s.process).1 ∧
    (Writes cfg env timestamp (logDestination cfg env i s) s.process → ∀ h₁,
      (write cfg env force timestamp message (logDestination cfg env i s) s.process).1.file = some h₁ →
        others start s i h₁.inode +
            (write cfg env force timestamp message (logDestination cfg env i s) s.process).1.bytes h₁.inode ≤
          maxLogSize cfg * 1048576 + h₁.headerSize + message.length) := by
  refine write_kept (logDestination_within h env i) hok.2.1 hok.2.2 (fun x hfree => ?_) hok.1
  rw [← objectBytes_logDestination, ← totalBytes_eq]
  exact hfree.1

theorem stepAll_sole {op : LoggerOp} (h : Sole start s) (hok : KeepsLimit cfg start s op) :
    Sole start (stepAll cfg s op) := by
  -- The operations other than `Write` open nothing.
  have hquiet : ∀ i env o', Kept (fun _ => False) (others start s i) (logDestination cfg env i s) o' →
      Sole start (setObject i o' s) := fun i env o' hkept => by
    have hset : Sole start { setObject i o' s with process := s.process } :=
      sole_setObject h (logDestination_cases cfg env i s) hkept fun _ hopen => hopen.elim
    exact hset
  cases op with
  | write i env force timestamp message =>
    exact sole_setObject h (logDestination_cases cfg env i s) (logDestination_kept h hok).1 fun x hfree => hfree.2
  | setLogDestination i env basename => exact hquiet i env _ (setBasename_kept (logDestination_within h env i))
  | setExtension i env ext => exact hquiet i env _ (setExtension_kept (logDestination_within h env i))
  | setSymlink i env basename =>
    exact hquiet i env _ (kept_of_same (logDestination_within h env i) rfl rfl rfl)
  | flush i env =>
    exact hquiet i env _ (kept_of_same (logDestination_within h env i) (flush_file cfg env.now _)
      (flush_closed cfg env.now _) (flush_fileLength cfg env.now _))
  | restart p => exact sole_of_none fun _ => rfl

/-- Whatever was in the files at the start, a file into which a `Write` puts its message does not exceed the
    limit by more than the header and the message. -/
theorem totalBytes_le_limit {p : Process} (hrun : Run.Reaches (stepAll cfg) (KeepsLimit cfg start) (.start p) s) {env : Env}
    {force : Bool} {timestamp : Int} {message : Text} (hok : KeepsLimit cfg start s (.write i env force timestamp message))
    (hwrites : Writes cfg env timestamp (logDestination cfg env i s) s.process) {h : Handle}
    (hobject : (stepAll cfg s (.write i env force timestamp message)).object i = some o) (hfile : o.file = some h) :
    totalBytes start (stepAll cfg s (.write i env force timestamp message)) h.inode ≤
      maxLogSize cfg * 1048576 + h.headerSize + message.length := by
  have hsole : Sole start s := hrun.invariant (sole_of_none fun _ => rfl) fun t op ht hop => stepAll_sole ht hop
  have hbound := (logDestination_kept hsole hok).2 hwrites
  have hwritten : o = (write cfg env force timestamp message (logDestination cfg env i s) s.process).1 := by
    have hself : (stepAll cfg s (.write i env force timestamp message)).object i =
      some (write cfg env force timestamp message (logDestination cfg env i s) s.process).1 := if_pos rfl
    rw [hself] at hobject
    exact (Option.some_inj.mp hobject).symm
  rw [totalBytes_eq start _ i]
  change others start { setObject i _ s with process := _ } i _ + objectBytes _ { setObject i _ s with process := _ } i ≤ _
  rw [others_setObject, objectBytes_setObject]
  rw [hwritten] at hfile
  exact hbound h hfile

end

def stopConfig : Config := { plainConfig with stopLoggingIfFullDisk := true }

def fullEnv : Env := { plainEnv with diskFull := true }

/-- The log file is open, and then the disk is full. -/
def afterRefusal : Loggers :=
  stepAll stopConfig (stepAll stopConfig (.start plainProcess) (.write .info plainEnv false 0 "ab".toList))
    (.write .info fullEnv false 0 "cd".toList)

theorem afterRefusal_reached :
    Run.Reaches (stepAll stopConfig) (KeepsLimit stopConfig fun _ => 0) (.start plainProcess) afterRefusal := by
  have hfirst : KeepsLimit stopConfig (fun _ => 0) (.start plainProcess) (.write .info plainEnv false 0 "ab".toList) :=
    ⟨fun _ _ => ⟨rfl, fun _ _ _ _ hobject => nomatch hobject⟩, fun _ _ hfile => (nomatch hfile),
      fun _ _ hfull => nomatch hfull⟩
  refine .next _ (.next _ .start hfirst) ⟨fun f hopens => ?_, fun _ h _ => Or.inr ?_, fun _ _ _ => rfl⟩
  · exact absurd hopens (by decide +revert)
  · decide

/-- The message behind the one that is refused is not stored, and the file is as before. -/
theorem totalBytes_le_limit_afterRefusal : ∃ o h,
    (stepAll stopConfig afterRefusal (.write .info plainEnv false 0 "ef".toList)).object .info = some o ∧ o.file = some h ∧
      totalBytes (fun _ => 0) (stepAll stopConfig afterRefusal (.write .info plainEnv false 0 "ef".toList)) h.inode ≤
        maxLogSize stopConfig * 1048576 + h.headerSize + "ef".toList.length := by
  have hok : KeepsLimit stopConfig (fun _ => 0) afterRefusal (.write .info plainEnv false 0 "ef".toList) := by
    refine ⟨fun f hopens => ?_, fun _ h _ => Or.inr ?_, fun _ _ hfull => nomatch hfull⟩
    · exact absurd hopens (by decide +revert)
    · decide
  have hwrites :
      Writes stopConfig plainEnv 0 (logDestination stopConfig plainEnv .info afterRefusal) afterRefusal.process :=
    ⟨fun hc => Bool.false_ne_true hc.1, rfl⟩
  exact ⟨_, _, rfl, rfl, totalBytes_le_limit afterRefusal_reached hok hwrites rfl rfl⟩

/-- A history file that is too large already is opened again, and its size is not asked for. -/
theorem not_totalBytes_le_limit : ¬ ∀ (cfg : Config) (start : Nat → Nat) (p : Process) (s : Loggers),
    Run.Reaches (stepAll cfg) (fun _ _ => True) (.start p) s → ∀ (i : Severity) (env : Env) (force : Bool) (timestamp : Int)
      (message : Text), Writes cfg env timestamp (logDestination cfg env i s) s.process → ∀ o h,
        (stepAll cfg s (.write i env force timestamp message)).object i = some o → o.file = some h →
          totalBytes start (stepAll cfg s (.write i env force timestamp message)) h.inode ≤
            maxLogSize cfg * 1048576 + h.headerSize + message.length := fun h => by
  have hwrites : Writes historyConfig historyEnv 0 (logDestination historyConfig historyEnv .info (.start plainProcess))
      plainProcess := ⟨fun hc => Bool.false_ne_true hc.1, rfl⟩
  have hbound :=
    h historyConfig (fun _ => 2000000) plainProcess _ .start .info historyEnv false 0 "ab".toList hwrites _ _ rfl rfl
  exact absurd hbound (by decide)

end Glog.LogFile
