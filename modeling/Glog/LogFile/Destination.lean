import Glog.LogFile.Prepare

/-! # The names of the files that are opened

What `CreateLogfile` opens starts with the base name. The history file that is reopened under the size policy
is looked for in the first logging directory, whatever the base name is. -/

namespace Glog.LogFile

/-- A base name that is set stays, and every file that is opened meets `P`. -/
structure Directed (P : Text → Prop) (o o' : LogFileObject) : Prop where
  opens : ∃ paths, o'.opens = o.opens ++ paths ∧ ∀ path ∈ paths, P path
  selected : o'.baseFilenameSelected = o.baseFilenameSelected
  base : o.baseFilenameSelected = true → o'.baseFilename = o.baseFilename

/-- Every name that starts with a base name that is set meets `P`. -/
def Allows (P : Text → Prop) (o : LogFileObject) : Prop :=
  ∀ path, (o.baseFilenameSelected = true → o.baseFilename <+: path) → P path

section
variable {cfg : Config} {env : Env} {P : Text → Prop} {timestamp : Int} {o o' o₁ : LogFileObject} {p : Process}

theorem Directed.of_eq (hopens : o'.opens = o.opens) (hselected : o'.baseFilenameSelected = o.baseFilenameSelected)
    (hbase : o'.baseFilename = o.baseFilename) : Directed P o o' :=
  ⟨⟨[], by rw [List.append_nil, hopens], nofun⟩, hselected, fun _ => hbase⟩

theorem Directed.trans (h : Directed P o o₁) (h' : Directed P o₁ o') : Directed P o o' := by
  obtain ⟨paths, hopens, hpaths⟩ := h.opens
  obtain ⟨paths', hopens', hpaths'⟩ := h'.opens
  refine ⟨⟨paths ++ paths', ?_, fun path hpath => ?_⟩, h'.selected.trans h.selected, fun hselected => ?_⟩
  · rw [hopens', hopens, List.append_assoc]
  · rcases List.mem_append.mp hpath with hpath | hpath
    · exact hpaths path hpath
    · exact hpaths' path hpath
  · rw [h'.base (h.selected.trans hselected), h.base hselected]

theorem Directed.allows (h : Directed P o o') (hP : Allows P o) : Allows P o' := fun path hpath => by
  refine hP path fun hselected => ?_
  have hfront := hpath (h.selected.trans hselected)
  rwa [h.base hselected] at hfront

theorem rollIfNeeded_directed (need : Bool) : Directed P o (rollIfNeeded need o) := by
  cases need with
  | true => exact .of_eq rfl rfl rfl
  | false => exact .of_eq rfl rfl rfl

theorem appendChunk_directed (c : Chunk) : Directed P o (appendChunk env c o) := .of_eq rfl rfl rfl

theorem countBytes_directed (length : Nat) : Directed P o (countBytes length o) := .of_eq rfl rfl rfl

theorem writeHeader_directed (tm : Tm) : Directed P o (writeHeader cfg env tm o) := by
  unfold writeHeader
  split
  · exact (appendChunk_directed _).trans (countBytes_directed _)
  · exact .of_eq rfl rfl rfl

theorem flush_directed (now : Int) : Directed P o (flush cfg now o) := by
  unfold flush
  dsimp only
  split
  · exact .of_eq rfl rfl rfl
  · exact .of_eq rfl rfl rfl

theorem dropLogMemory_directed : Directed P o (dropLogMemory cfg o) := by
  unfold dropLogMemory
  split
  · exact .of_eq rfl rfl rfl
  · exact .of_eq rfl rfl rfl

theorem writeMessage_directed {force : Bool} {message : Text} :
    Directed P o (writeMessage cfg env force message o p).1 := by
  have happended : Directed P o (appendChunk env (.message message) o) := appendChunk_directed _
  have hcounted : Directed P o (countBytes message.length (appendChunk env (.message message) o)) :=
    happended.trans (countBytes_directed _)
  unfold writeMessage
  split
  · exact .of_eq rfl rfl rfl
  · dsimp only
    split
    · exact happended
    · split
      · exact hcounted.trans ((flush_directed env.now).trans dropLogMemory_directed)
      · exact hcounted

/-- A set base name is used for every file that is created. -/
theorem attempt_directed {made : Option (Nat × Bool)} (h : Attempt env timestamp o made o') (hP : Allows P o) :
    Directed P o o' := by
  cases h with
  | failed base paths hbase =>
    refine ⟨⟨paths, rfl, fun path hpath => hP path fun hselected => ?_⟩, rfl, fun hselected => (hbase hselected).1⟩
    obtain ⟨rfl, hpaths⟩ := hbase hselected
    exact hpaths path hpath
  | success base paths path name inode isNew hbase =>
    refine ⟨⟨paths ++ [path], rfl, fun path hpath => hP path fun hselected => ?_⟩, rfl,
      fun hselected => (hbase hselected).1⟩
    obtain ⟨rfl, hpaths⟩ := hbase hselected
    exact hpaths path hpath

theorem makeFile_directed (hP : Allows P o) : Directed P o (makeFile cfg env timestamp o p).2.1 := by
  rcases makeFile_cases cfg env timestamp o p with ⟨-, heq⟩ | ⟨-, made, o', p', -, hattempt, heq⟩
  · rw [heq]
    exact .of_eq rfl rfl rfl
  · rw [heq]
    have hpruned : Directed P o (pruned cfg env timestamp o) := by
      obtain ⟨l, rs, hpruned⟩ := pruned_eq cfg env timestamp o
      rw [hpruned]
      exact .of_eq rfl rfl rfl
    have hattempted : Directed P o o' := hpruned.trans (attempt_directed hattempt (hpruned.allows hP))
    cases made with
    | some f => exact hattempted.trans (writeHeader_directed _)
    | none => exact hattempted

/-- Where a history file is reopened, it meets `P` or it cannot be opened. -/
def HistoryMeets (cfg : Config) (env : Env) (P : Text → Prop) (o : LogFileObject) : Prop :=
  cfg.policy = .size → o.initialized = false → ∀ e, newestHistory cfg env o = some e →
    P e.name ∨ env.openFile e.name false = .failed

theorem reopenHistory_directed (hhistory : o.file = none → HistoryMeets cfg env P o) :
    Directed P o (reopenHistory cfg env timestamp o) := by
  have hreopened := reopenHistory_reopened cfg env timestamp o
  generalize reopenHistory cfg env timestamp o = o' at hreopened
  cases hreopened with
  | skipped _ => exact .of_eq rfl rfl rfl
  | failed l rs paths hfile hpolicy hinit hpaths _ _ =>
    refine ⟨⟨paths, rfl, fun path hpath => ?_⟩, rfl, fun _ => rfl⟩
    obtain ⟨e, hnewest, rfl, hopen⟩ := hpaths path hpath
    exact (hhistory hfile hpolicy hinit e hnewest).resolve_right hopen
  | success l rs e inode isNew hfile hpolicy hinit hnewest hopen _ =>
    refine ⟨⟨[e.name], rfl, fun path hpath => ?_⟩, rfl, fun _ => rfl⟩
    rw [List.mem_singleton.mp hpath]
    refine (hhistory hfile hpolicy hinit e hnewest).resolve_right ?_
    rw [hopen]
    exact nofun

/-- A `Write` may look for a history file where it has no file, or rolls it. -/
def FindsHistory (cfg : Config) (env : Env) (timestamp : Int) (o : LogFileObject) (p : Process) : Prop :=
  o.file = none ∨ (checkNeedRollLogFiles cfg env timestamp o p).1 = true

theorem prepare_directed (hP : Allows P o)
    (hhistory : FindsHistory cfg env timestamp o p → HistoryMeets cfg env P o) :
    Directed P o (prepare cfg env timestamp o p).2.1 := by
  have hrolled : Directed P o (rollIfNeeded (checkNeedRollLogFiles cfg env timestamp o p).1 o) := rollIfNeeded_directed _
  have hreopened : Directed P o
      (reopenHistory cfg env timestamp (rollIfNeeded (checkNeedRollLogFiles cfg env timestamp o p).1 o)) := by
    refine hrolled.trans (reopenHistory_directed fun hfile hpolicy hinit e hnewest => ?_)
    rw [newestHistory_rollIfNeeded] at hnewest
    cases hneed : (checkNeedRollLogFiles cfg env timestamp o p).1 with
    | true =>
      rw [hneed] at hinit
      exact hhistory (Or.inr hneed) hpolicy hinit e hnewest
    | false =>
      rw [hneed] at hfile hinit
      exact hhistory (Or.inl hfile) hpolicy hinit e hnewest
  unfold prepare
  dsimp only
  split
  · exact hreopened.trans (makeFile_directed (hreopened.allows hP))
  · exact hreopened

theorem write_directed {force : Bool} {message : Text} (hP : Allows P o)
    (hhistory : FindsHistory cfg env timestamp o p → HistoryMeets cfg env P o) :
    Directed P o (write cfg env force timestamp message o p).1 := by
  have hprepared : Directed P o (prepare cfg env timestamp o p).2.1 := prepare_directed hP hhistory
  unfold write
  split
  · exact .of_eq rfl rfl rfl
  · dsimp only
    split
    · exact hprepared.trans writeMessage_directed
    · exact hprepared

/-- Under the base name `""` nothing is opened or written. -/
theorem write_of_empty {force : Bool} {message : Text} (hselected : o.baseFilenameSelected = true)
    (hbase : o.baseFilename = []) :
    (write cfg env force timestamp message o p).1 = o := by
  rw [write, if_pos ⟨hselected, hbase⟩]

end

/-! ### Runs -/

def Op.KeepsBase : Op → Prop
  | .setBasename _ => False
  | _ => True

/-- The history file that a `Write` reopens has the base name. -/
def HonoursBase (cfg : Config) (o : LogFileObject) : Op → Prop
  | .write env p _ timestamp _ =>
    FindsHistory cfg env timestamp o p → HistoryMeets cfg env (fun path => o.baseFilename <+: path) o
  | _ => True

section
variable {cfg : Config} {o o' : LogFileObject} {op : Op} {base : Text}

theorem setExtension_files (ext : Text) : (setExtension ext o).files = o.files := by
  unfold setExtension
  split
  · dsimp only
    split
    · exact files_closeFile o
    · rfl
  · rfl

theorem setBasename_files : (setBasename base o).files = o.files := by
  unfold setBasename
  dsimp only
  split
  · split
    · exact files_closeFile o
    · rfl
  · rfl

theorem setBasename_opens : (setBasename base o).opens = o.opens := by
  unfold setBasename
  dsimp only
  split
  · split <;> rfl
  · rfl

theorem setBasename_selected : (setBasename base o).baseFilenameSelected = true := by
  unfold setBasename
  dsimp only
  split
  · split <;> rfl
  · rfl

theorem setBasename_baseFilename : (setBasename base o).baseFilename = base := by
  unfold setBasename
  dsimp only
  split
  · split <;> rfl
  · rename_i hsame
    exact Decidable.of_not_not hsame

theorem step_directed (hselected : o.baseFilenameSelected = true) (hbase : o.baseFilename = base) (hkeeps : op.KeepsBase)
    (hhonours : HonoursBase cfg o op) : Directed (fun path => base <+: path) o (step cfg o op) := by
  subst hbase
  cases op with
  | write env p force timestamp message => exact write_directed (fun _ h => h hselected) hhonours
  | flush now => exact flush_directed now
  | setBasename basename => exact hkeeps.elim
  | setExtension ext =>
    unfold step setExtension
    dsimp only
    split
    · split
      · exact .of_eq rfl rfl rfl
      · exact .of_eq rfl rfl rfl
    · exact .of_eq rfl rfl rfl
  | setSymlinkBasename basename => exact .of_eq rfl rfl rfl

theorem step_files_of_empty (hselected : o.baseFilenameSelected = true) (hbase : o.baseFilename = [])
    (hkeeps : op.KeepsBase) :
    (step cfg o op).opens = o.opens ∧ (step cfg o op).files = o.files := by
  cases op with
  | write env p force timestamp message =>
    change (write cfg env force timestamp message o p).1.opens = _ ∧ (write cfg env force timestamp message o p).1.files = _
    rw [write_of_empty hselected hbase]
    exact ⟨rfl, rfl⟩
  | flush now =>
    change (flush cfg now o).opens = _ ∧ (flush cfg now o).closed ++ (flush cfg now o).file.toList = _
    rw [flush_opens, flush_closed, flush_file]
    exact ⟨rfl, rfl⟩
  | setBasename basename => exact hkeeps.elim
  | setExtension ext =>
    refine ⟨?_, setExtension_files ext⟩
    unfold step setExtension
    dsimp only
    split
    · split <;> rfl
    · rfl
  | setSymlinkBasename basename => exact ⟨rfl, rfl⟩

/-- From a change of the base name to the next one, in a run that reopens only history files of that base name,
    every file that is opened has the base name, and under the empty one nothing is opened or written. -/
theorem opens_prefix_base
    (hrun : Run.Reaches (step cfg) (fun o op => op.KeepsBase ∧ HonoursBase cfg o op) (setBasename base o) o') :
    (base ≠ [] → ∃ paths, o'.opens = o.opens ++ paths ∧ ∀ path ∈ paths, base <+: path) ∧
      (base = [] → o'.opens = o.opens ∧ o'.files = o.files) := by
  have hdirected : Directed (fun path => base <+: path) (setBasename base o) o' ∧
      (base = [] → o'.opens = o.opens ∧ o'.files = o.files) := by
    refine hrun.invariant (I := fun t => Directed (fun path => base <+: path) (setBasename base o) t ∧
      (base = [] → t.opens = o.opens ∧ t.files = o.files)) ?_ ?_
    · exact ⟨.of_eq rfl rfl rfl, fun _ => ⟨setBasename_opens, setBasename_files⟩⟩
    · intro t op ⟨hdirected, hnothing⟩ ⟨hkeeps, hhonours⟩
      have hselected : t.baseFilenameSelected = true := hdirected.selected.trans setBasename_selected
      have hbase : t.baseFilename = base := (hdirected.base setBasename_selected).trans setBasename_baseFilename
      refine ⟨hdirected.trans (step_directed hselected hbase hkeeps hhonours), fun hempty => ?_⟩
      have hsame : (step cfg t op).opens = t.opens ∧ (step cfg t op).files = t.files :=
        step_files_of_empty hselected (hbase.trans hempty) hkeeps
      rw [hsame.1, hsame.2]
      exact hnothing hempty
  refine ⟨fun _ => ?_, hdirected.2⟩
  obtain ⟨paths, hopens, hpaths⟩ := hdirected.1.opens
  exact ⟨paths, hopens.trans (by rw [setBasename_opens]), hpaths⟩

end

theorem opens_prefix_base_b :
    (['b'] ≠ [] → ∃ paths, (step plainConfig (setBasename ['b'] (plainObject plainConfig)) (plainWrite 0 ['c'])).opens =
      (plainObject plainConfig).opens ++ paths ∧ ∀ path ∈ paths, ['b'] <+: path) ∧
    (['b'] = [] → (step plainConfig (setBasename ['b'] (plainObject plainConfig)) (plainWrite 0 ['c'])).opens =
      (plainObject plainConfig).opens ∧
      (step plainConfig (setBasename ['b'] (plainObject plainConfig)) (plainWrite 0 ['c'])).files =
        (plainObject plainConfig).files) :=
  opens_prefix_base (Run.Reaches.start.next (plainWrite 0 ['c']) ⟨trivial, fun _ hpolicy => nomatch hpolicy⟩)

/-- The history file `/tmp/prog.INFO.old` is opened after the base name has been set to `b`. -/
theorem not_opens_prefix_base : ¬ ∀ (cfg : Config) (severity : Severity) (first : Option Text) (now : Int) (tm : Tm)
    (o o' : LogFileObject) (base : Text), Run.Reaches (step cfg) (fun _ _ => True) (.new cfg severity first now tm) o →
      Run.Reaches (step cfg) (fun _ op => op.KeepsBase) (setBasename base o) o' →
        (base ≠ [] → ∃ paths, o'.opens = o.opens ++ paths ∧ ∀ path ∈ paths, base <+: path) ∧
          (base = [] → o'.opens = o.opens ∧ o'.files = o.files) := fun h => by
  have hrun : Run.Reaches (step historyConfig) (fun _ op => op.KeepsBase) (setBasename ['b'] (plainObject historyConfig))
      (step historyConfig (setBasename ['b'] (plainObject historyConfig)) (.write historyEnv plainProcess false 0 ['c'])) :=
    Run.Reaches.start.next _ trivial
  obtain ⟨paths, hopens, hpaths⟩ := (h historyConfig .info (some ['a']) 0 (plainTm 0) _ _ ['b'] .start hrun).1 nofun
  have hopened : (step historyConfig (setBasename ['b'] (plainObject historyConfig))
      (.write historyEnv plainProcess false 0 ['c'])).opens = ["/tmp//prog.INFO.old".toList] := by decide
  rw [hopened] at hopens
  have hfront :=
    hpaths "/tmp//prog.INFO.old".toList (by rw [← List.nil_append paths]; exact hopens ▸ List.mem_singleton.mpr rfl)
  exact absurd hfront (by decide)

end Glog.LogFile
