import Glog.LogFile.Prepare

/-! # Retention

Files are removed from the front of the list, which is kept in the order of the times. A file that is created
enters the list with a time that is never set. -/

namespace Glog.LogFile

/-- By the modification time for files found on disk, which are older than the created ones, and by the number
    for these. -/
def Age.Older : Age → Age → Prop
  | .disk m, .disk m' => m < m'
  | .disk _, .created _ => True
  | .created _, .disk _ => False
  | .created n, .created n' => n < n'

instance (a b : Age) : Decidable (a.Older b) :=
  match a, b with
  | .disk m, .disk m' => inferInstanceAs (Decidable (m < m'))
  | .disk _, .created _ => inferInstanceAs (Decidable True)
  | .created _, .disk _ => inferInstanceAs (Decidable False)
  | .created n, .created n' => inferInstanceAs (Decidable (n < n'))

def Age.number : Age → Option Nat
  | .disk _ => none
  | .created n => some n

/-- The numbers of the created files. -/
def numbers (l : List Filetime) : List Nat := l.filterMap fun e => e.age.number

/-- The files that have been removed. -/
def LogFileObject.removed (o : LogFileObject) : List Filetime := o.retired.map Retired.file

/-- No file is older than one before it. -/
def Aged (l : List Filetime) : Prop := l.Pairwise fun a b => ¬ b.age.Older a.age

/-- The list is in the order of the ages, and whatever has been removed was the oldest. -/
structure Ordered (o : LogFileObject) : Prop where
  aged : Aged o.fileList
  ranged : numbers (o.removed ++ o.fileList) = List.range o.creations
  early : o.initialized = false → o.creations = 0
  oldest : ∀ r ∈ o.retired, ∀ e ∈ r.others, ¬ e.age.Older r.file.age

/-- What the order depends on. -/
def LogFileObject.history (o : LogFileObject) : List Filetime × List Retired × Nat × Bool :=
  (o.fileList, o.retired, o.creations, o.initialized)

section
variable {cfg : Config} {env : Env} {timestamp : Int} {o o' : LogFileObject} {p : Process} {l : List Filetime}

theorem Ordered.of_history (h : Ordered o) (hsame : o'.history = o.history) : Ordered o' := by
  simp only [LogFileObject.history, Prod.mk.injEq] at hsame
  obtain ⟨hlist, hretired, hcreations, hinit⟩ := hsame
  refine ⟨?_, ?_, ?_, ?_⟩
  · rw [hlist]
    exact h.aged
  · rw [LogFileObject.removed, hretired, hlist, hcreations]
    exact h.ranged
  · rw [hinit, hcreations]
    exact h.early
  · rw [hretired]
    exact h.oldest

/-! ### Removing files -/

/-- A file is removed together with all before it. -/
theorem retain_split (o : LogFileObject) (l : List Filetime) : ∃ rs l',
    retain cfg o l = { o with fileList := l', retired := o.retired ++ rs } ∧ rs.map Retired.file ++ l' = l ∧
      ∀ r ∈ rs, ∃ l₀, l₀ ++ r.file :: r.others = l := by
  induction l generalizing o with
  | nil => exact ⟨[], [], by rw [List.append_nil]; rfl, rfl, nofun⟩
  | cons e rest ih =>
    unfold retain
    split
    · obtain ⟨rs, l', heq, hsplit, hrest⟩ := ih { o with retired := o.retired ++ [⟨e, rest⟩] }
      refine ⟨⟨e, rest⟩ :: rs, l', by rw [heq, List.append_assoc]; rfl, by rw [List.map_cons, List.cons_append, hsplit], ?_⟩
      intro r hr
      rcases List.mem_cons.mp hr with rfl | hr
      · exact ⟨[], rfl⟩
      · obtain ⟨l₀, hl₀⟩ := hrest r hr
        exact ⟨e :: l₀, by rw [List.cons_append, hl₀]⟩
    · exact ⟨[], e :: rest, by rw [List.append_nil], rfl, nofun⟩

theorem retain_ordered (h : Ordered { o with fileList := l }) : Ordered (retain cfg o l) := by
  obtain ⟨rs, l', heq, hsplit, hrest⟩ := @retain_split cfg o l
  rw [heq]
  have haged : Aged (rs.map Retired.file ++ l') := by
    rw [hsplit]
    exact h.aged
  refine ⟨(List.pairwise_append.mp haged).2.1, ?_, h.early, fun r hr e he => ?_⟩
  · have hnumbers := h.ranged
    rw [LogFileObject.removed] at hnumbers ⊢
    rw [List.map_append, List.append_assoc, hsplit]
    exact hnumbers
  · rcases List.mem_append.mp hr with hr | hr
    · exact h.oldest r hr e he
    · obtain ⟨l₀, hl₀⟩ := hrest r hr
      have hall : Aged (l₀ ++ r.file :: r.others) := by
        rw [hl₀]
        exact h.aged
      exact (List.pairwise_cons.mp (List.pairwise_append.mp hall).2.1).1 e he

/-! ### Looking for files -/

/-- Files found on disk, in the order of the times. -/
structure OnDisk (l : List Filetime) : Prop where
  disk : ∀ e ∈ l, e.age = .disk e.time
  sorted : l.Pairwise fun a b => a.time ≤ b.time

theorem mem_insertFile {e x : Filetime} : x ∈ insertFile e l ↔ x = e ∨ x ∈ l := by
  induction l with
  | nil => exact List.mem_singleton.trans (by simp)
  | cons y rest ih =>
    unfold insertFile
    split
    · exact List.mem_cons
    · rw [List.mem_cons, ih, List.mem_cons]
      exact or_left_comm

theorem insertFile_sorted {e : Filetime} (h : l.Pairwise fun a b => a.time ≤ b.time) :
    (insertFile e l).Pairwise fun a b => a.time ≤ b.time := by
  induction l with
  | nil => exact List.pairwise_singleton _ _
  | cons y rest ih =>
    obtain ⟨hfirst, hrest⟩ := List.pairwise_cons.mp h
    unfold insertFile
    split
    · rename_i hlt
      refine List.pairwise_cons.mpr ⟨fun x hx => ?_, h⟩
      rcases List.mem_cons.mp hx with rfl | hx
      · exact Int.le_of_lt hlt
      · exact Int.le_trans (Int.le_of_lt hlt) (hfirst x hx)
    · rename_i hnot
      refine List.pairwise_cons.mpr ⟨fun x hx => ?_, ih hrest⟩
      rcases mem_insertFile.mp hx with rfl | hx
      · exact Int.not_lt.mp hnot
      · exact hfirst x hx

theorem insertFile_onDisk {name : Text} {mtime : Int} (h : OnDisk l) :
    OnDisk (insertFile ⟨name, mtime, .disk mtime⟩ l) where
  disk e he := by
    rcases mem_insertFile.mp he with rfl | he
    · rfl
    · exact h.disk e he
  sorted := insertFile_sorted h.sorted

theorem scan_onDisk {dir marker : Text} (entries : List DirEntry) : ∀ found, OnDisk found →
    OnDisk (scan dir marker entries found).1 := by
  induction entries with
  | nil => exact fun _ h => h
  | cons entry rest ih =>
    intro found h
    unfold scan
    split
    · exact ih found h
    · split
      · split
        · exact h
        · exact ih _ (insertFile_onDisk h)
      · exact ih found h

theorem OnDisk.aged (h : OnDisk l) : Aged l := by
  refine List.Pairwise.imp_of_mem (fun {a b} ha hb hle => ?_) h.sorted
  rw [h.disk a ha, h.disk b hb]
  exact Int.not_lt.mpr hle

theorem OnDisk.numbers_eq (h : OnDisk l) : numbers l = [] := by
  refine List.filterMap_eq_nil_iff.mpr fun e he => ?_
  rw [h.disk e he]
  rfl

/-- A list that is made before any file has been created. -/
theorem Ordered.of_onDisk (h : Ordered o) (hinit : o.initialized = false) (hdisk : OnDisk l) :
    Ordered { o with fileList := l } where
  aged := hdisk.aged
  ranged := by
    have hnumbers := h.ranged
    rw [h.early hinit] at hnumbers
    have hremoved : numbers o.removed = [] := by
      rw [numbers, List.filterMap_append] at hnumbers
      exact (List.append_eq_nil_iff.mp hnumbers).1
    change numbers (o.removed ++ l) = List.range o.creations
    rw [numbers, List.filterMap_append, ← numbers, ← numbers, hremoved, hdisk.numbers_eq, h.early hinit]
    rfl
  early := h.early
  oldest := h.oldest

theorem checkHistoryFileNum_ordered (h : Ordered o) (hinit : o.initialized = false) :
    Ordered (checkHistoryFileNum cfg env o) := by
  unfold checkHistoryFileNum
  split
  · rename_i dir dirs entries _ _
    have hdisk := @scan_onDisk dir (o.symlinkBasename ++ '.' :: o.severity.name) entries [] ⟨nofun, .nil⟩
    dsimp only
    split
    · exact retain_ordered (h.of_onDisk hinit hdisk)
    · exact h.of_onDisk hinit hdisk
  · exact h

theorem prune_ordered (h : Ordered o) : Ordered (prune cfg env o) := by
  unfold prune
  split
  · exact retain_ordered h
  · rename_i hinit
    have hchecked : Ordered (checkHistoryFileNum cfg env o) := checkHistoryFileNum_ordered h (Bool.eq_false_iff.mpr hinit)
    exact ⟨hchecked.aged, hchecked.ranged, nofun, hchecked.oldest⟩

/-! ### Creating files -/

theorem insertFile_last {e : Filetime} (h : ∀ x ∈ l, x.time ≤ e.time) : insertFile e l = l ++ [e] := by
  induction l with
  | nil => rfl
  | cons x rest ih =>
    have hx : ¬ e.time < x.time := Int.not_lt.mpr (h x List.mem_cons_self)
    rw [insertFile, if_neg hx, ih fun y hy => h y (List.mem_cons_of_mem x hy)]
    rfl

theorem Ordered.number_lt (h : Ordered o) {e : Filetime} {n : Nat} (he : e ∈ o.fileList) (hage : e.age = .created n) :
    n < o.creations := by
  refine List.mem_range.mp ?_
  rw [← h.ranged]
  refine List.mem_filterMap.mpr ⟨e, List.mem_append_right _ he, ?_⟩
  rw [hage]
  rfl

/-- A file that is created enters behind all others, if its time is not below theirs. -/
theorem Ordered.insert (h : Ordered o) (hinit : o.initialized = true) {name : Text} {time : Int}
    (hlast : ∀ e ∈ o.fileList, e.time ≤ time) :
    Ordered
      { o with fileList := insertFile ⟨name, time, .created o.creations⟩ o.fileList, creations := o.creations + 1 } where
  aged := by
    change Aged (insertFile _ o.fileList)
    rw [insertFile_last hlast]
    refine List.pairwise_append.mpr ⟨h.aged, List.pairwise_singleton _ _, fun x hx e he => ?_⟩
    rw [List.mem_singleton.mp he]
    cases hage : x.age with
    | disk m => exact id
    | created n => exact Nat.not_lt.mpr (Nat.le_of_lt (h.number_lt hx hage))
  ranged := by
    change numbers (o.removed ++ insertFile _ o.fileList) = List.range (o.creations + 1)
    rw [insertFile_last hlast, ← List.append_assoc, numbers, List.filterMap_append, ← numbers, h.ranged, List.range_succ]
    rfl
  early hnot := by
    rw [hinit] at hnot
    cases hnot
  oldest := h.oldest

theorem writeHeader_history (tm : Tm) : (writeHeader cfg env tm o).history = o.history := by
  unfold writeHeader
  split
  · generalize fileHeader cfg env o.startTime tm = header
    rfl
  · rfl

theorem prune_fileList (hsymlink : o'.symlinkBasename = o.symlinkBasename) (hseverity : o'.severity = o.severity)
    (hinit : o'.initialized = o.initialized)
    (hlist : o'.fileList = o.fileList ∨ o.initialized = false ∧ o'.fileList = (checkHistoryFileNum cfg env o).fileList) :
    (prune cfg env o').fileList = (prune cfg env o).fileList := by
  unfold prune
  rw [hinit]
  split
  · rename_i hset
    rcases hlist with hlist | ⟨hnot, -⟩
    · rw [hlist]
      exact retain_fileList cfg _ o o'
    · rw [hset] at hnot
      cases hnot
  · exact checkHistoryFileNum_fileList cfg env hsymlink hseverity (hlist.imp_right And.right)

theorem prune_initialized : (prune cfg env o).initialized = true := by
  obtain ⟨l, rs, heq⟩ := prune_eq cfg env o
  rw [heq]

theorem makeFile_ordered (h : Ordered o)
    (hlast : o.rolloverAttempt + 1 = kRolloverAttemptFrequency → (createdFile cfg env timestamp o p).isSome →
      ∀ e ∈ (prune cfg env o).fileList, e.time ≤ env.indeterminateTime) :
    Ordered (makeFile cfg env timestamp o p).2.1 := by
  rcases makeFile_cases cfg env timestamp o p with ⟨-, heq⟩ | ⟨hdue, made, o', p', hmade, hattempt, heq⟩
  · rw [heq]
    exact h.of_history rfl
  · rw [heq]
    have hpruned : Ordered (pruned cfg env timestamp o) := by
      have hstart : Ordered { o with rolloverAttempt := 0 } := h.of_history rfl
      exact (@prune_ordered cfg env _ hstart).of_history rfl
    have hinit : (pruned cfg env timestamp o).initialized = true := prune_initialized
    have hlist : (pruned cfg env timestamp o).fileList = (prune cfg env o).fileList :=
      prune_fileList (by rfl) (by rfl) (by rfl) (Or.inl (by rfl))
    generalize pruned cfg env timestamp o = o₁ at hpruned hinit hlist hattempt
    cases hattempt with
    | failed base paths _ => exact hpruned.of_history rfl
    | success base paths path name inode isNew _ =>
      refine Ordered.of_history (hpruned.insert hinit fun e he => ?_) (writeHeader_history _)
      rw [hlist] at he
      exact hlast hdue (by rw [hmade]; rfl) e he

/-- A file that a `Write` creates has a time that is not below those in the list. -/
def NewestLast (cfg : Config) (env : Env) (timestamp : Int) (o : LogFileObject) (p : Process) : Prop :=
  reopenedFile cfg env o = none → (opensFile cfg env timestamp o p).isSome →
    ∀ e ∈ (prune cfg env o).fileList, e.time ≤ env.indeterminateTime

theorem prepare_ordered (h : Ordered o) (hlast : NewestLast cfg env timestamp o p) :
    Ordered (prepare cfg env timestamp o p).2.1 := by
  have hrolled : ∀ need, Ordered (rollIfNeeded need o) := fun need => h.of_history (by cases need <;> rfl)
  have hchecked : ∀ {rolled l rs}, Ordered rolled → rolled.initialized = false ∧
      checkHistoryFileNum cfg env rolled = { rolled with fileList := l, retired := rolled.retired ++ rs } →
        Ordered { rolled with fileList := l, retired := rolled.retired ++ rs } := by
    rintro rolled l rs horder ⟨hinit, heq⟩
    rw [← heq]
    exact checkHistoryFileNum_ordered horder hinit
  cases prepare_prepared cfg env timestamp o p with
  | stays h₀ hfile hneed heq =>
    rw [heq]
    exact h
  | reopens rolled heqRolled hfile l rs path inode isNew hlist hopens heq =>
    rw [heq]
    have horder := hchecked (by rw [heqRolled]; exact hrolled _) hlist
    exact ⟨horder.aged, horder.ranged, nofun, horder.oldest⟩
  | makes rolled heqRolled hfile l rs paths hlist hreopened hopens heq =>
    rw [heq]
    have horder : Ordered { rolled with fileList := l, retired := rolled.retired ++ rs } := by
      have hstart : Ordered rolled := by
        rw [heqRolled]
        exact hrolled _
      rcases hlist with ⟨rfl, rfl⟩ | hlist
      · exact hstart.of_history (by simp [LogFileObject.history])
      · exact hchecked hstart hlist
    refine makeFile_ordered (horder.of_history rfl) fun hdue hcreated e he => ?_
    have hsame : (prune cfg env rolled).fileList = (prune cfg env o).fileList := by
      rw [heqRolled]
      cases (checkNeedRollLogFiles cfg env timestamp o p).1 with
      | true => exact prune_fileList (by rfl) (by rfl) (by rfl) (Or.inl (by rfl))
      | false => rfl
    refine hlast hreopened ?_ e ?_
    · rw [createdFile_congr cfg env (o := rolled) (by rfl) (by rfl) (by rfl) (by rfl)] at hcreated
      rw [hopens, if_pos hdue]
      exact hcreated
    · rw [← hsame]
      rw [prune_fileList (o := rolled) (by rfl) (by rfl) (by rfl) ?_] at he
      · exact he
      · rcases hlist with ⟨hkeep, -⟩ | ⟨hinit, hchecked⟩
        · exact Or.inl hkeep
        · exact Or.inr ⟨hinit, by rw [hchecked]⟩

theorem appendChunk_history (c : Chunk) : (appendChunk env c o).history = o.history := rfl

theorem countBytes_history (length : Nat) : (countBytes length o).history = o.history := rfl

theorem flush_history (now : Int) : (flush cfg now o).history = o.history := by
  unfold flush
  dsimp only
  split <;> rfl

theorem dropLogMemory_history : (dropLogMemory cfg o).history = o.history := by
  unfold dropLogMemory LogFileObject.history
  split <;> rfl

theorem writeMessage_history {force : Bool} {message : Text} :
    (writeMessage cfg env force message o p).1.history = o.history := by
  unfold writeMessage
  split
  · rfl
  · dsimp only
    split
    · exact appendChunk_history _
    · split
      · rw [dropLogMemory_history, flush_history, countBytes_history, appendChunk_history]
      · rw [countBytes_history, appendChunk_history]

theorem write_ordered {force : Bool} {message : Text} (h : Ordered o)
    (hlast : ¬ (o.baseFilenameSelected = true ∧ o.baseFilename = []) → NewestLast cfg env timestamp o p) :
    Ordered (write cfg env force timestamp message o p).1 := by
  unfold write
  split
  · exact h
  · rename_i hbase
    have hprepared : Ordered (prepare cfg env timestamp o p).2.1 := prepare_ordered h (hlast hbase)
    dsimp only
    split
    · exact hprepared.of_history writeMessage_history
    · exact hprepared

end

/-! ### Runs -/

section
variable {cfg : Config} {o : LogFileObject}

/-- The condition on a `Write`; one with the base name `""` does nothing. -/
def KeepsOrder (cfg : Config) (o : LogFileObject) : Op → Prop
  | .write env p _ timestamp _ =>
    ¬ (o.baseFilenameSelected = true ∧ o.baseFilename = []) → NewestLast cfg env timestamp o p
  | _ => True

theorem step_ordered {op : Op} (h : Ordered o) (hkeeps : KeepsOrder cfg o op) : Ordered (step cfg o op) := by
  cases op with
  | write env p force timestamp message => exact write_ordered h hkeeps
  | flush now => exact h.of_history (flush_history now)
  | setBasename basename =>
    refine h.of_history ?_
    unfold step setBasename
    dsimp only
    split
    · split <;> rfl
    · rfl
  | setExtension ext =>
    refine h.of_history ?_
    unfold step setExtension
    dsimp only
    split
    · split <;> rfl
    · rfl
  | setSymlinkBasename basename => exact h.of_history rfl

/-- What is removed is the oldest file of the list, and the created files are removed in their order. -/
structure OldestFirst (o : LogFileObject) : Prop where
  oldest : ∀ r ∈ o.retired, ∀ e ∈ r.others, ¬ e.age.Older r.file.age
  inOrder : ∃ k, numbers o.removed = List.range k

theorem Ordered.oldestFirst (h : Ordered o) : OldestFirst o where
  oldest := h.oldest
  inOrder := by
    have hfront : numbers o.removed <+: List.range o.creations := by
      rw [← h.ranged, numbers, numbers, List.filterMap_append]
      exact List.prefix_append ..
    refine ⟨(numbers o.removed).length, ?_⟩
    rw [List.prefix_iff_eq_take.mp hfront, List.take_range, List.length_range]

/-- In a run in which every file that is created gets a time that is not below those in the list, retention
    removes the oldest files first. -/
theorem oldestFirst_of_newestLast {severity : Severity} {base : Option Text} {now : Int} {tm : Tm}
    (hrun : Run.Reaches (step cfg) (KeepsOrder cfg) (.new cfg severity base now tm) o) : OldestFirst o := by
  have hordered : Ordered o :=
    hrun.invariant ⟨.nil, rfl, fun _ => rfl, nofun⟩ fun t op ht hop => step_ordered ht hop
  exact hordered.oldestFirst

end

/-- A message on each of three days; the third one removes the first file. -/
def threeDays : LogFileObject :=
  [plainWrite 0 [], plainWrite 1 [], plainWrite 2 []].foldl (step plainConfig) (plainObject plainConfig)

theorem oldestFirst_of_newestLast_threeDays : threeDays.retired ≠ [] ∧ OldestFirst threeDays := by
  have hone : Run.Reaches (step plainConfig) (KeepsOrder plainConfig) (plainObject plainConfig)
      (step plainConfig (plainObject plainConfig) (plainWrite 0 [])) := Run.Reaches.start.next _ fun _ _ _ => by decide
  have htwo := hone.next (plainWrite 1 []) fun _ _ _ => by decide
  have hthree := htwo.next (plainWrite 2 []) fun _ _ _ => by decide
  exact ⟨by decide, oldestFirst_of_newestLast hthree⟩

/-- A file of an earlier run is on disk. -/
def oldFileEnv : Env := { plainEnv with listing := some [⟨"prog.INFO.old".toList, false, some 5⟩] }

/-- The file that has just been created has the time zero: it is removed before the file on disk. -/
theorem not_oldestFirst : ¬ ∀ (cfg : Config) (severity : Severity) (base : Option Text) (now : Int) (tm : Tm)
    (o : LogFileObject), cfg.maxLogfileNum ≥ 1 →
      Run.Reaches (step cfg) (fun _ _ => True) (.new cfg severity base now tm) o → OldestFirst o := fun h => by
  have hrun : Run.Reaches (step plainConfig) (fun _ _ => True) (plainObject plainConfig)
      ([Op.write oldFileEnv plainProcess false 0 [], .write oldFileEnv plainProcess false 1 []].foldl (step plainConfig)
        (plainObject plainConfig)) := .foldl fun _ _ _ => trivial
  have holdest := (h plainConfig .info (some ['a']) 0 (plainTm 0) _ (by decide) hrun).oldest
  exact absurd holdest (by decide)

end Glog.LogFile
