import Mathlib.Data.List.Nodup
import Glog.LogFile.Suitable
import Glog.LogFile.History

/-! # The registry of the files

`file_list_` is meant to name the files that an object has created and not yet removed. Beside the object a run keeps the
paths of the files that exist, and of those that the object has created. No other process touches the files, and every
file operation succeeds. -/

namespace Glog.LogFile
open LogCleaner

section
variable {cfg : Config} {env : Env} {timestamp : Int} {o o' : LogFileObject} {p : Process} {l : List Filetime}
    {dir marker : Text}

/-! ### Lists of files -/

def fileNames (l : List Filetime) : List Text := l.map Filetime.name

theorem fileNames_insertFile (e : Filetime) : (fileNames (insertFile e l)).Perm (e.name :: fileNames l) := by
  induction l with
  | nil => exact .refl _
  | cons x rest ih =>
    unfold insertFile
    split
    · exact .refl _
    · exact (ih.cons x.name).trans (.swap e.name x.name (fileNames rest))

/-- Names that the scan adds, in some order. -/
theorem fileNames_scan (entries : List DirEntry) (hstat : ∀ entry ∈ entries, entry.mtime ≠ none) : ∀ found, ∃ new,
    (fileNames (scan dir marker entries found).1).Perm (new ++ fileNames found) ∧
      new.Sublist (entries.map fun entry => dir ++ '/' :: entry.name) ∧ (scan dir marker entries found).2 = true := by
  induction entries with
  | nil => exact fun found => ⟨[], .refl _, .slnil, rfl⟩
  | cons entry rest ih =>
    intro found
    have hrest := ih fun x hx => hstat x (List.mem_cons_of_mem entry hx)
    have hskip : ∃ new, (fileNames (scan dir marker rest found).1).Perm (new ++ fileNames found) ∧
        new.Sublist ((entry :: rest).map fun entry => dir ++ '/' :: entry.name) ∧
          (scan dir marker rest found).2 = true := by
      obtain ⟨new, hperm, hsub, hall⟩ := hrest found
      exact ⟨new, hperm, hsub.cons _, hall⟩
    unfold scan
    split
    · exact hskip
    · split
      · cases hmtime : entry.mtime with
        | none => exact absurd hmtime (hstat entry List.mem_cons_self)
        | some mtime =>
          obtain ⟨new, hperm, hsub, hall⟩ := hrest (insertFile ⟨dir ++ '/' :: entry.name, mtime, .disk mtime⟩ found)
          refine ⟨(dir ++ '/' :: entry.name) :: new, hperm.trans ?_, hsub.cons_cons _, hall⟩
          exact ((fileNames_insertFile _).append_left new).trans List.perm_middle
      · exact hskip

theorem nodup_paths {entries : List DirEntry} (h : (entries.map DirEntry.name).Nodup) :
    (entries.map fun entry => dir ++ '/' :: entry.name).Nodup := by
  have hmap : (entries.map fun entry => dir ++ '/' :: entry.name) = (entries.map DirEntry.name).map fun name =>
      dir ++ '/' :: name := by
    rw [List.map_map]
    rfl
  rw [hmap]
  refine h.map fun name name' heq => ?_
  exact List.cons_inj_right '/' |>.mp (List.append_cancel_left heq)

/-- What is left is fewer than the limit. -/
theorem length_retain (hmax : 1 ≤ cfg.maxLogfileNum) (l : List Filetime) :
    ∀ o, (retain cfg o l).fileList.length < cfg.maxLogfileNum := by
  induction l with
  | nil => exact fun _ => hmax
  | cons e rest ih =>
    intro o
    unfold retain
    split
    · exact ih _
    · rename_i hfew
      exact Nat.lt_of_not_le fun hle => hfew ⟨hmax, hle⟩

/-- A list from which files have been removed: what is left names existing files, none of them twice, and what has been
    created is named or has been removed. -/
structure Trimmed (cfg : Config) (files created : List Text) (l : List Filetime) (rs : List Retired) : Prop where
  distinct : (fileNames l).Nodup
  existing : ∀ name ∈ fileNames l, name ∈ files
  apart : ∀ name ∈ fileNames l, ∀ r ∈ rs, r.file.name ≠ name
  named : ∀ x ∈ created, (∃ r ∈ rs, r.file.name = x) ∨ x ∈ fileNames l
  short : l.length < cfg.maxLogfileNum

variable {files created : List Text}

theorem trimmed_nil (hmax : 1 ≤ cfg.maxLogfileNum) (rs : List Retired) : Trimmed cfg files [] [] rs where
  distinct := List.nodup_nil
  existing _ hname := absurd hname List.not_mem_nil
  apart _ hname := absurd hname List.not_mem_nil
  named _ hx := absurd hx List.not_mem_nil
  short := hmax

theorem retain_trimmed (hmax : 1 ≤ cfg.maxLogfileNum) (hdistinct : (fileNames l).Nodup)
    (hexisting : ∀ name ∈ fileNames l, name ∈ files)
    (hnamed : ∀ x ∈ created, x ∈ fileNames l) (o : LogFileObject) : ∃ l' rs,
      retain cfg o l = { o with fileList := l', retired := o.retired ++ rs } ∧ Trimmed cfg files created l' rs := by
  obtain ⟨rs, l', heq, hsplit, -⟩ := @retain_split cfg o l
  have hnames : fileNames l = rs.map (fun r => r.file.name) ++ fileNames l' := by
    rw [← hsplit, fileNames, List.map_append, List.map_map]
    rfl
  rw [hnames] at hdistinct hexisting hnamed
  obtain ⟨-, hdistinct', hdisjoint⟩ := List.nodup_append.mp hdistinct
  refine ⟨l', rs, heq, hdistinct', fun name hname => hexisting name (List.mem_append_right _ hname), ?_, ?_, ?_⟩
  · exact fun name hname r hr heq => hdisjoint _ (List.mem_map_of_mem hr) _ hname heq
  · intro x hx
    refine (List.mem_append.mp (hnamed x hx)).imp_left fun hmem => ?_
    obtain ⟨r, hr, hname⟩ := List.mem_map.mp hmem
    exact ⟨r, hr, hname⟩
  · have hlength := @length_retain cfg hmax l o
    rwa [heq] at hlength

/-- The first directory can be listed and all that is in it can be examined. -/
structure Listed (cfg : Config) (env : Env) (files : List Text) : Prop where
  entries : ∃ entries, env.listing = some entries ∧ (entries.map DirEntry.name).Nodup ∧
    (∀ entry ∈ entries, entry.mtime ≠ none) ∧
    ∀ entry ∈ entries, entry.isDirOrLink = false → ∀ dir, cfg.loggingDirectories.head? = some dir →
      dir ++ '/' :: entry.name ∈ files

theorem checkHistoryFileNum_trimmed (hmax : 1 ≤ cfg.maxLogfileNum) (hlisted : Listed cfg env files)
    (hlist : o.fileList = []) :
    ∃ l rs, checkHistoryFileNum cfg env o = { o with fileList := l, retired := o.retired ++ rs } ∧
      Trimmed cfg files [] l rs := by
  obtain ⟨entries, hlisting, hdistinct, hstat, hfiles⟩ := hlisted.entries
  unfold checkHistoryFileNum
  rw [hlisting]
  cases hdirs : cfg.loggingDirectories with
  | nil =>
    refine ⟨[], [], ?_, trimmed_nil hmax []⟩
    rw [List.append_nil, ← hlist]
  | cons dir dirs =>
    dsimp only
    obtain ⟨new, hperm, hsub, hall⟩ := @fileNames_scan dir (o.symlinkBasename ++ '.' :: o.severity.name) entries hstat []
    rw [hall, if_pos rfl]
    have hnew : (new ++ fileNames []).Nodup := by
      rw [fileNames, List.map_nil, List.append_nil]
      exact (nodup_paths hdistinct).sublist hsub
    refine retain_trimmed hmax (hperm.nodup_iff.mpr hnew) (fun name hname => ?_)
      (fun x hx => absurd hx List.not_mem_nil) o
    obtain ⟨e, he, rfl⟩ := List.mem_map.mp hname
    rcases (mem_scan entries hstat []).mp he with hnil | ⟨entry, hentry, hregular, -, mtime, -, rfl⟩
    · cases hnil
    · exact hfiles entry hentry hregular dir (by rw [hdirs]; rfl)

/-! ### Runs with the files that exist -/

/-- The object, the paths of all files, and those of the files that the object has created in the run. -/
structure Tracked where
  object : LogFileObject
  files : List Text
  created : List Text

/-- The path of an open file that is new. -/
def newFile (o : LogFileObject) : List Text := (o.file.filter Handle.isNew).toList.map Handle.path

/-- The names of the files that have been removed since. -/
def unlinked (o o' : LogFileObject) : List Text := (o'.retired.drop o.retired.length).map fun r => r.file.name

def opened (o o' : LogFileObject) : List Text := o'.opens.drop o.opens.length

/-- The paths that are left of a list when some have been removed. -/
def remaining (l removed : List Text) : List Text := l.filter (· ∉ removed)

/-- What becomes of the files in a step of the object. A removed file is no more, a path that has been opened exists, and
    the open file has been created if it is new. -/
def Tracked.next (t : Tracked) (o' : LogFileObject) : Tracked where
  object := o'
  files := opened t.object o' ++ remaining t.files (unlinked t.object o')
  created := if opened t.object o' = [] then remaining t.created (unlinked t.object o')
    else newFile o' ++ remaining t.created (unlinked t.object o' ++ newFile o')

def track (cfg : Config) (t : Tracked) (op : Op) : Tracked := t.next (step cfg t.object op)

/-- The name that is recorded for a file that is created, if there is a name to try. -/
def originName (cfg : Config) (timestamp : Int) (o : LogFileObject) (p : Process) : Option Text :=
  (firstBase cfg o).map fun base =>
    logfileName cfg (timePidString cfg.policy (namingTime cfg timestamp) p.mainThreadPid) { o with baseFilename := base }

/-- The file can be opened, and it is new if there was none of its name, or if that has been removed. -/
def Opens (cfg : Config) (env : Env) (choice : Choice) : Prop :=
  ∃ inode isNew, env.openFile choice.name cfg.timestampInLogfileName = .success inode isNew ∧
    ((cfg.timestampInLogfileName || isNew) = true ↔ env.stat choice.name = none ∨ choice.removed ≠ none)

/-- What the system answers to a `Write` agrees with the files, and every operation succeeds. -/
structure Succeeds (cfg : Config) (t : Tracked) (env : Env) (p : Process) (force : Bool) (timestamp : Int)
    (message : Text) : Prop where
  listed : Listed cfg env t.files
  stat : ∀ path, env.stat path ≠ none ↔
    path ∈ remaining t.files (unlinked t.object (write cfg env force timestamp message t.object p).1)
  reopened : t.object.initialized = false → cfg.policy = .size → ∀ e, newestHistory cfg env t.object = some e →
    ∃ inode, env.openFile e.name false = .success inode false
  made : reopenedFile cfg env t.object = none →
    ∀ origin, originName cfg timestamp t.object (checkNeedRollLogFiles cfg env timestamp t.object p).2 = some origin →
      Opens cfg env (chooseFileName cfg env origin (checkNeedRollLogFiles cfg env timestamp t.object p).2)

/-- The list names existing files, none of them twice, and all those that have been created. -/
structure Registry (cfg : Config) (t : Tracked) : Prop where
  distinct : (fileNames t.object.fileList).Nodup
  existing : ∀ name ∈ fileNames t.object.fileList, name ∈ t.files
  named : ∀ x ∈ t.created, x ∈ fileNames t.object.fileList
  single : t.created.Nodup
  short : t.object.fileList.length ≤ cfg.maxLogfileNum
  early : t.object.initialized = false → t.object.fileList = [] ∧ t.created = []

variable {t : Tracked} {rs : List Retired} {paths : List Text}

theorem mem_remaining {x : Text} {l removed : List Text} : x ∈ remaining l removed ↔ x ∈ l ∧ x ∉ removed := by
  rw [remaining, List.mem_filter, decide_eq_true_iff]

theorem nodup_remaining {l removed : List Text} (h : l.Nodup) : (remaining l removed).Nodup := h.filter _

theorem unlinked_eq (h : o'.retired = o.retired ++ rs) : unlinked o o' = rs.map fun r => r.file.name := by
  rw [unlinked, h, List.drop_left]

theorem opened_eq (h : o'.opens = o.opens ++ paths) : opened o o' = paths := by rw [opened, h, List.drop_left]

/-- What is left of a trimmed list. -/
theorem Trimmed.left {name : Text} (h : Trimmed cfg files created l rs) (hname : name ∈ fileNames l) :
    name ∈ remaining files (rs.map fun r => r.file.name) := by
  refine mem_remaining.mpr ⟨h.existing name hname, fun hmem => ?_⟩
  obtain ⟨r, hr, heq⟩ := List.mem_map.mp hmem
  exact h.apart name hname r hr heq

theorem Trimmed.of_created {x : Text} (h : Trimmed cfg files created l rs) (hx : x ∈ created)
    (hleft : x ∉ rs.map fun r => r.file.name) : x ∈ fileNames l := by
  refine (h.named x hx).resolve_left ?_
  rintro ⟨r, hr, rfl⟩
  exact hleft (List.mem_map_of_mem hr)

/-- A step that opens no file, or one that was there before. -/
theorem Registry.trimmed (h : Registry cfg t) (paths : List Text) (hlist : Trimmed cfg t.files t.created o'.fileList rs)
    (hretired : o'.retired = t.object.retired ++ rs) (hopens : o'.opens = t.object.opens ++ paths)
    (hnew : paths = [] ∨ newFile o' = []) (hearly : o'.initialized = false → o'.fileList = [] ∧ t.created = []) :
    Registry cfg (t.next o') := by
  have hcreated : ∀ x ∈ (t.next o').created, x ∈ t.created ∧ x ∉ rs.map fun r => r.file.name := by
    intro x hx
    unfold Tracked.next at hx
    dsimp only at hx
    rw [opened_eq hopens, unlinked_eq hretired] at hx
    split at hx
    · exact mem_remaining.mp hx
    · rename_i hpaths
      rw [hnew.resolve_left hpaths, List.nil_append, List.append_nil] at hx
      exact mem_remaining.mp hx
  refine ⟨hlist.distinct, fun name hname => ?_, fun x hx => ?_, ?_, Nat.le_of_lt hlist.short, fun hinit => ?_⟩
  · unfold Tracked.next
    dsimp only
    rw [unlinked_eq hretired]
    exact List.mem_append_right _ (hlist.left hname)
  · exact hlist.of_created (hcreated x hx).1 (hcreated x hx).2
  · unfold Tracked.next
    dsimp only
    split
    · exact nodup_remaining h.single
    · rename_i hpaths
      rw [opened_eq hopens] at hpaths
      rw [hnew.resolve_left hpaths]
      exact nodup_remaining h.single
  · obtain ⟨hnil, hnone⟩ := hearly hinit
    refine ⟨hnil, List.eq_nil_iff_forall_not_mem.mpr fun x hx => ?_⟩
    have hx' := (hcreated x hx).1
    rw [hnone] at hx'
    cases hx'

/-- A step that creates a file, or opens one under the name of a new one. -/
theorem Registry.made {e : Filetime} (name path : Text) (fresh : Prop) (h : Registry cfg t)
    (hlist : Trimmed cfg t.files t.created l rs) (hfileList : o'.fileList = insertFile e l) (hname : e.name = name)
    (hretired : o'.retired = t.object.retired ++ rs) (hopens : o'.opens = t.object.opens ++ [path])
    (hnew : newFile o' = [] ∧ ¬ fresh ∨ newFile o' = [path] ∧ fresh) (hinit : o'.initialized = true)
    (hnamed : name ∉ fileNames l) (hthere : name = path ∨ name ∈ remaining t.files (rs.map fun r => r.file.name))
    (hpath : fresh → path = name ∨ path ∈ fileNames l) : Registry cfg (t.next o') := by
  have hperm := @fileNames_insertFile l e
  rw [hname] at hperm
  have hmem : ∀ x, x ∈ fileNames (insertFile e l) ↔ x = name ∨ x ∈ fileNames l := fun x =>
    hperm.mem_iff.trans List.mem_cons
  have hcreated : (t.next o').created = newFile o' ++
      remaining t.created ((rs.map fun r => r.file.name) ++ newFile o') := by
    unfold Tracked.next
    dsimp only
    rw [opened_eq hopens, unlinked_eq hretired, if_neg (List.cons_ne_nil path [])]
  have hfiles : (t.next o').files = path :: remaining t.files (rs.map fun r => r.file.name) := by
    unfold Tracked.next
    dsimp only
    rw [opened_eq hopens, unlinked_eq hretired]
    rfl
  refine ⟨?_, fun x hx => ?_, fun x hx => ?_, ?_, ?_, fun hnot => ?_⟩
  · change (fileNames o'.fileList).Nodup
    rw [hfileList]
    exact hperm.nodup_iff.mpr (List.nodup_cons.mpr ⟨hnamed, hlist.distinct⟩)
  · change x ∈ fileNames o'.fileList at hx
    rw [hfileList, hmem] at hx
    rw [hfiles]
    rcases hx with rfl | hx
    · exact hthere.elim (fun heq => heq ▸ List.mem_cons_self) fun hleft => List.mem_cons_of_mem path hleft
    · exact List.mem_cons_of_mem path (hlist.left hx)
  · change x ∈ fileNames o'.fileList
    rw [hfileList, hmem]
    rw [hcreated] at hx
    rcases List.mem_append.mp hx with hx | hx
    · rcases hnew with ⟨hnil, -⟩ | ⟨hself, hfresh⟩
      · rw [hnil] at hx
        cases hx
      · rw [hself, List.mem_singleton] at hx
        rw [hx]
        exact hpath hfresh
    · obtain ⟨hx, hleft⟩ := mem_remaining.mp hx
      exact Or.inr (hlist.of_created hx fun hremoved => hleft (List.mem_append_left _ hremoved))
  · rw [hcreated]
    refine List.nodup_append.mpr ⟨?_, nodup_remaining h.single, fun x hx y hy heq => ?_⟩
    · rcases hnew with ⟨hnil, -⟩ | ⟨hself, -⟩
      · rw [hnil]
        exact List.nodup_nil
      · rw [hself]
        exact List.nodup_singleton path
    · exact (mem_remaining.mp hy).2 (List.mem_append_right _ (heq ▸ hx))
  · change o'.fileList.length ≤ cfg.maxLogfileNum
    have hlength := hperm.length_eq
    rw [fileNames, List.length_map, List.length_cons, fileNames, List.length_map] at hlength
    rw [hfileList, hlength]
    exact hlist.short
  · cases hinit.symm.trans hnot

/-- What the registry depends on. -/
structure SameRecord (o o' : LogFileObject) : Prop where
  fileList : o'.fileList = o.fileList
  retired : o'.retired = o.retired
  opens : o'.opens = o.opens
  initialized : o'.initialized = o.initialized

theorem Registry.withObject (h : Registry cfg t) (hlist : o'.fileList = t.object.fileList)
    (hinit : o'.initialized = t.object.initialized) : Registry cfg { t with object := o' } := by
  refine ⟨?_, ?_, ?_, h.single, ?_, ?_⟩
  · dsimp only
    rw [hlist]
    exact h.distinct
  · dsimp only
    rw [hlist]
    exact h.existing
  · dsimp only
    rw [hlist]
    exact h.named
  · dsimp only
    rw [hlist]
    exact h.short
  · dsimp only
    rw [hlist, hinit]
    exact h.early

theorem Registry.of_same {o₁ : LogFileObject} (h : Registry cfg (t.next o₁)) (hsame : SameRecord o₁ o')
    (hnew : newFile o' = newFile o₁) : Registry cfg (t.next o') := by
  obtain ⟨hlist, hretired, hopens, hinit⟩ := hsame
  have hopened : opened t.object o' = opened t.object o₁ := by rw [opened, hopens, opened]
  have hunlinked : unlinked t.object o' = unlinked t.object o₁ := by rw [unlinked, hretired, unlinked]
  have hnext : t.next o' = { t.next o₁ with object := o' } := by
    unfold Tracked.next
    rw [hopened, hunlinked, hnew]
  rw [hnext]
  exact h.withObject hlist hinit

/-- A step that leaves the record alone. -/
theorem Registry.quiet (h : Registry cfg t) (hsame : SameRecord t.object o') : Registry cfg (t.next o') := by
  obtain ⟨hlist, hretired, hopens, hinit⟩ := hsame
  have hopened : opened t.object o' = [] := opened_eq (by rw [hopens, List.append_nil])
  have hnone : o'.retired = t.object.retired ++ [] := by rw [hretired, List.append_nil]
  have hunlinked : unlinked t.object o' = [] := unlinked_eq hnone
  have hall : ∀ l, remaining l [] = l := fun l => List.filter_eq_self.mpr fun x _ => decide_eq_true List.not_mem_nil
  have hnext : t.next o' = { t with object := o' } := by
    unfold Tracked.next
    rw [hopened, hunlinked, if_pos rfl, hall, hall, List.nil_append]
  rw [hnext]
  exact h.withObject hlist hinit

/-- Writing to a file does not make it new. -/
theorem newFile_of_map {f : Handle → Handle} (hnew : ∀ h, (f h).isNew = h.isNew) (hpath : ∀ h, (f h).path = h.path)
    (hfile : o'.file = o.file.map f) : newFile o' = newFile o := by
  unfold newFile
  rw [hfile]
  generalize o.file = file
  cases file with
  | none => rfl
  | some h =>
    rw [Option.map_some, Option.filter_some, Option.filter_some, hnew]
    split
    · exact congrArg (fun path => [path]) (hpath h)
    · rfl

theorem newFile_appendChunk (c : Chunk) : newFile (appendChunk env c o) = newFile o := by
  exact newFile_of_map (f := fun h => { h with written := h.written ++ [c.take (env.taken c)] }) (fun _ => rfl)
    (fun _ => rfl) rfl

theorem newFile_writeHeader (tm : Tm) : newFile (writeHeader cfg env tm o) = newFile o := by
  unfold writeHeader
  split
  · generalize fileHeader cfg env o.startTime tm = header
    exact newFile_appendChunk (.header header)
  · rfl

theorem sameRecord_writeHeader (tm : Tm) : SameRecord o (writeHeader cfg env tm o) := by
  obtain ⟨_, _, _, _, _, heq⟩ := @writeHeader_frame cfg env o tm
  rw [heq]
  exact ⟨rfl, rfl, rfl, rfl⟩

theorem newFile_writeMessage (force : Bool) (message : Text) :
    newFile (writeMessage cfg env force message o p).1 = newFile o := by
  rcases writeMessage_cases cfg env force message o p with ⟨-, heq⟩ | ⟨-, hfile, -⟩
  · rw [heq]
  · rw [newFile, hfile, ← newFile, newFile_appendChunk]

/-! ### A `Write` -/

theorem originName_rollIfNeeded (need : Bool) :
    originName cfg timestamp (rollIfNeeded need o) p = originName cfg timestamp o p := by
  cases need <;> rfl

/-- A name other than the given one is chosen only if there is a file of the given name. -/
theorem stat_of_chooseFileName_ne {origin : Text} (h : (chooseFileName cfg env origin p).name ≠ origin) :
    env.stat origin ≠ none := by
  intro hstat
  rw [chooseFileName, hstat] at h
  exact h rfl

/-- The object behind the history scan: the scan has been skipped, or nothing is left to reopen. -/
structure Scanned (cfg : Config) (env : Env) (o o₁ : LogFileObject) (rs : List Retired) : Prop where
  file : o₁.file = none
  retired : o₁.retired = o.retired ++ rs
  opens : o₁.opens = o.opens
  initialized : o₁.initialized = o.initialized
  symlinkBasename : o₁.symlinkBasename = o.symlinkBasename
  severity : o₁.severity = o.severity
  list : rs = [] ∧ o₁.fileList = o.fileList ∨
    o.initialized = false ∧ o₁.fileList = [] ∧ (checkHistoryFileNum cfg env o).fileList = []

/-- What the pruning leaves before a file is made. -/
theorem pruned_trimmed {o₁ : LogFileObject} (h : Registry cfg t) (hmax : 1 ≤ cfg.maxLogfileNum)
    (hlisted : Listed cfg env t.files)
    (hscanned : Scanned cfg env t.object o₁ rs) : ∃ l rs', Trimmed cfg t.files t.created l rs' ∧
      l = (prune cfg env t.object).fileList ∧ pruned cfg env timestamp o₁ =
        { o₁ with
          rolloverAttempt := 0
          fileList := l
          retired := t.object.retired ++ rs'
          initialized := true
          tmTime := namingTime cfg timestamp } := by
  have hsame : (prune cfg env { o₁ with rolloverAttempt := 0 }).fileList = (prune cfg env t.object).fileList := by
    refine prune_fileList hscanned.symlinkBasename hscanned.severity hscanned.initialized ?_
    rcases hscanned.list with ⟨-, hlist⟩ | ⟨hinit, hlist, hnone⟩
    · exact Or.inl hlist
    · exact Or.inr ⟨hinit, hlist.trans hnone.symm⟩
  unfold pruned
  cases hinit : t.object.initialized with
  | true =>
    obtain ⟨hrs, hlist⟩ := hscanned.list.resolve_right fun hnot => by
      rw [hinit] at hnot
      cases hnot.1
    obtain ⟨l, rs', heq, htrimmed⟩ := retain_trimmed hmax h.distinct h.existing h.named { o₁ with rolloverAttempt := 0 }
    have hprune : prune cfg env { o₁ with rolloverAttempt := 0 } =
        retain cfg { o₁ with rolloverAttempt := 0 } t.object.fileList := by
      rw [prune, if_pos (hscanned.initialized.trans hinit), ← hlist]
    rw [hprune, heq] at hsame
    refine ⟨l, rs', htrimmed, hsame, ?_⟩
    rw [hprune, heq, ← hscanned.initialized.trans hinit]
    dsimp only
    rw [hscanned.retired, hrs, List.append_nil]
  | false =>
    obtain ⟨hnil, hnone⟩ := h.early hinit
    have hempty : o₁.fileList = [] := hscanned.list.elim (fun hlist => hlist.2.trans hnil) fun hlist => hlist.2.1
    obtain ⟨l, rs', heq, htrimmed⟩ :=
      checkHistoryFileNum_trimmed (o := { o₁ with rolloverAttempt := 0 }) hmax hlisted hempty
    have hprune : prune cfg env { o₁ with rolloverAttempt := 0 } =
        { checkHistoryFileNum cfg env { o₁ with rolloverAttempt := 0 } with initialized := true } := by
      rw [prune, if_neg]
      rw [hscanned.initialized, hinit]
      exact Bool.false_ne_true
    rw [hprune, heq] at hsame
    refine ⟨l, rs ++ rs', ?_, hsame, ?_⟩
    · rw [hnone]
      rcases hscanned.list with ⟨rfl, -⟩ | ⟨-, -, hcheck⟩
      · exact htrimmed
      · have hl : l = [] := by
          have hagain := @checkHistoryFileNum_fileList cfg env t.object { o₁ with rolloverAttempt := 0 }
            hscanned.symlinkBasename hscanned.severity (Or.inl (hempty.trans hnil.symm))
          rw [heq] at hagain
          exact hagain.trans hcheck
        rw [hl]
        exact trimmed_nil hmax _
    · rw [hprune, heq, ← List.append_assoc, ← hscanned.retired]

/-- What the registry needs of a file that is made: its recorded name is not in the list, and the file has this name, or
    was there before, or took the place of a file of the list. -/
def Records (cfg : Config) (env : Env) (l : List Filetime) (p : Process) (origin : Text) : Prop :=
  origin ∉ fileNames l ∧
    ((chooseFileName cfg env origin p).name = origin ∨
      (chooseFileName cfg env origin p).removed = none ∧ env.stat (chooseFileName cfg env origin p).name ≠ none ∨
      (chooseFileName cfg env origin p).name ∈ fileNames l)

theorem Registry.recorded {origin : Text} {e : Filetime} {isNew : Bool} (h : Registry cfg t)
    (htrimmed : Trimmed cfg t.files t.created l rs) (hname : e.name = origin) (hfileList : o'.fileList = insertFile e l)
    (hretired : o'.retired = t.object.retired ++ rs)
    (hopens : o'.opens = t.object.opens ++ [(chooseFileName cfg env origin p).name]) (hinit : o'.initialized = true)
    (hnew : newFile o' = if isNew then [(chooseFileName cfg env origin p).name] else [])
    (hfresh : isNew = true ↔ env.stat (chooseFileName cfg env origin p).name = none ∨
      (chooseFileName cfg env origin p).removed ≠ none)
    (hstat : ∀ path, env.stat path ≠ none → path ∈ remaining t.files (rs.map fun r => r.file.name))
    (hrecords : Records cfg env l p origin) : Registry cfg (t.next o') := by
  obtain ⟨hunnamed, hchosen⟩ := hrecords
  refine h.made origin _ (isNew = true) htrimmed hfileList hname hretired hopens ?_ hinit hunnamed ?_ fun hfile => ?_
  · cases isNew with
    | true => exact Or.inr ⟨hnew, rfl⟩
    | false => exact Or.inl ⟨hnew, Bool.false_ne_true⟩
  · by_cases hsame : (chooseFileName cfg env origin p).name = origin
    · exact Or.inl hsame.symm
    · exact Or.inr (hstat origin (stat_of_chooseFileName_ne hsame))
  · rcases hchosen with hself | ⟨hkept, hold⟩ | hmem
    · exact Or.inl hself
    · rcases hfresh.mp hfile with hfree | hremoved
      · exact absurd hfree hold
      · exact absurd hkept hremoved
    · exact Or.inr hmem

theorem makeFile_registry {o₁ : LogFileObject} (h : Registry cfg t) (hmax : 1 ≤ cfg.maxLogfileNum)
    (hlisted : Listed cfg env t.files) (hscanned : Scanned cfg env t.object o₁ rs)
    (hstat : ∀ path, env.stat path ≠ none →
      path ∈ remaining t.files (unlinked t.object (makeFile cfg env timestamp o₁ p).2.1))
    (hmade : ∀ origin, originName cfg timestamp o₁ p = some origin → Opens cfg env (chooseFileName cfg env origin p))
    (hrecords : o₁.rolloverAttempt + 1 = kRolloverAttemptFrequency → ∀ origin, originName cfg timestamp o₁ p = some origin →
      Records cfg env (prune cfg env t.object).fileList p origin) :
    Registry cfg (t.next (makeFile cfg env timestamp o₁ p).2.1) := by
  by_cases hdue : o₁.rolloverAttempt + 1 = kRolloverAttemptFrequency
  · obtain ⟨l, rs', htrimmed, hlist, hpruned⟩ := @pruned_trimmed cfg env timestamp t rs o₁ h hmax hlisted hscanned
    rw [makeFile_due cfg env hdue, hpruned] at hstat ⊢
    cases hbase : firstBase cfg o₁ with
    | none =>
      rw [create_of_none (by exact hbase)] at hstat ⊢
      refine h.trimmed [] htrimmed rfl ?_ (Or.inl rfl) nofun
      rw [List.append_nil]
      exact hscanned.opens
    | some base =>
      have horigin : originName cfg timestamp o₁ p = some (logfileName cfg
          (timePidString cfg.policy (namingTime cfg timestamp) p.mainThreadPid) { o₁ with baseFilename := base }) := by
        rw [originName, hbase, Option.map_some]
      generalize hname : logfileName cfg (timePidString cfg.policy (namingTime cfg timestamp) p.mainThreadPid)
        { o₁ with baseFilename := base } = origin at horigin
      have hrecords' : Records cfg env l p origin := hlist ▸ hrecords hdue origin horigin
      obtain ⟨inode, isNew, hopen, hfresh⟩ := hmade origin horigin
      rw [create_of_firstBase (by exact hbase) (by exact hname) (name_chooseFileName p).symm hopen] at hstat ⊢
      dsimp only at hstat ⊢
      rw [if_pos rfl] at hstat ⊢
      dsimp only at hstat ⊢
      have hsame := @sameRecord_writeHeader cfg env
        { o₁ with
          rolloverAttempt := 0
          baseFilename := base
          file := some ⟨(chooseFileName cfg env origin p).name, inode, cfg.timestampInLogfileName || isNew,
            env.pid, timestamp, []⟩
          opens := o₁.opens ++ [(chooseFileName cfg env origin p).name]
          fileList := insertFile ⟨origin, env.indeterminateTime, .created o₁.creations⟩ l
          retired := t.object.retired ++ rs'
          creations := o₁.creations + 1
          initialized := true
          tmTime := namingTime cfg timestamp } (namingTime cfg timestamp)
      rw [unlinked_eq hsame.retired] at hstat
      refine Registry.of_same (h.recorded htrimmed rfl rfl rfl ?_ rfl ?_ hfresh hstat hrecords') hsame
        (newFile_writeHeader _)
      · rw [hscanned.opens]
      · rw [newFile, Option.filter_some]
        cases cfg.timestampInLogfileName || isNew <;> rfl
  · rw [makeFile, if_pos hdue]
    rcases hscanned.list with ⟨hrs, hlist⟩ | ⟨hinit, hlist, -⟩
    · refine h.quiet ⟨hlist, ?_, hscanned.opens, hscanned.initialized⟩
      rw [← List.append_nil t.object.retired, ← hrs]
      exact hscanned.retired
    · have hnone := (h.early hinit).2
      refine h.trimmed [] ?_ hscanned.retired ?_ (Or.inl rfl) fun _ => ⟨hlist, hnone⟩
      · dsimp only
        rw [hlist, hnone]
        exact trimmed_nil hmax rs
      · rw [List.append_nil]
        exact hscanned.opens

/-- A `Write` that makes a file keeps the registry if the name that it records is a new one, and names the file. -/
def Registers (cfg : Config) (env : Env) (timestamp : Int) (o : LogFileObject) (p : Process) : Prop :=
  ¬ (o.baseFilenameSelected = true ∧ o.baseFilename = []) → reopenedFile cfg env o = none →
    (checkNeedRollLogFiles cfg env timestamp o p).1 = true ∨ o.file = none ∧
      o.rolloverAttempt + 1 = kRolloverAttemptFrequency →
      ∀ origin, originName cfg timestamp o (checkNeedRollLogFiles cfg env timestamp o p).2 = some origin →
        Records cfg env (prune cfg env o).fileList (checkNeedRollLogFiles cfg env timestamp o p).2 origin

theorem sameRecord_rollIfNeeded (need : Bool) : SameRecord o (rollIfNeeded need o) := by
  cases need <;> exact ⟨rfl, rfl, rfl, rfl⟩

theorem scanned_rolled {need : Bool} (hfile : (rollIfNeeded need o).file = none) :
    Scanned cfg env o (rollIfNeeded need o) [] := by
  have hlist : ([] : List Retired) = [] ∧ (rollIfNeeded need o).fileList = o.fileList :=
    ⟨rfl, (sameRecord_rollIfNeeded need).fileList⟩
  refine ⟨hfile, ?_, ?_, ?_, ?_, ?_, Or.inl hlist⟩
  · rw [List.append_nil]
    cases need <;> rfl
  all_goals cases need <;> rfl

theorem due_of_rolled {need : Bool} (hfile : (rollIfNeeded need o).file = none)
    (hdue : (rollIfNeeded need o).rolloverAttempt + 1 = kRolloverAttemptFrequency) :
    need = true ∨ o.file = none ∧ o.rolloverAttempt + 1 = kRolloverAttemptFrequency := by
  cases need with
  | true => exact Or.inl rfl
  | false => exact Or.inr ⟨hfile, hdue⟩

/-- Without a file in the directory the history leaves nothing, and nothing is opened. -/
theorem Scanned.reopened_none {o₁ : LogFileObject} {paths : List Text} (h : Scanned cfg env o o₁ [])
    (hinit : o.initialized = false) (hnone : newestHistory cfg env o₁ = none) (hnone' : newestHistory cfg env o = none)
    (hpaths : ∀ path ∈ paths, ∃ e, newestHistory cfg env o₁ = some e ∧ e.name = path ∧ env.openFile path false ≠ .failed)
    (hlist : checkHistoryFileNum cfg env o₁ = { o₁ with fileList := l, retired := o₁.retired ++ rs }) :
    paths = [] ∧ l = [] ∧ Scanned cfg env o { o₁ with fileList := [], retired := o₁.retired ++ rs } rs := by
  refine ⟨List.eq_nil_iff_forall_not_mem.mpr fun path hpath => ?_, ?_, ?_⟩
  · obtain ⟨e, he, -⟩ := hpaths path hpath
    rw [hnone] at he
    cases he
  · rw [newestHistory, hlist] at hnone
    exact List.getLast?_eq_none_iff.mp hnone
  · have hretired : o₁.retired = o.retired := h.retired.trans (List.append_nil _)
    refine ⟨h.file, ?_, h.opens, h.initialized, h.symlinkBasename, h.severity, Or.inr ⟨hinit, rfl, ?_⟩⟩
    · dsimp only
      rw [hretired]
    · exact List.getLast?_eq_none_iff.mp hnone'

/-- A file of the history that is opened again is in the list. -/
theorem Registry.reopened {rolled : LogFileObject} {e : Filetime} (h : Registry cfg t) (hmax : 1 ≤ cfg.maxLogfileNum)
    (hlisted : Listed cfg env t.files) (hsame : SameRecord t.object rolled) (hinit : t.object.initialized = false)
    (hlist : checkHistoryFileNum cfg env rolled = { rolled with fileList := l, retired := rolled.retired ++ rs })
    (hfileList : o'.fileList = l) (hretired : o'.retired = rolled.retired ++ rs)
    (hopens : o'.opens = rolled.opens ++ [e.name])
    (hold : newFile o' = []) (hinitialized : o'.initialized = true) : Registry cfg (t.next o') := by
  obtain ⟨hnil, hnone⟩ := h.early hinit
  obtain ⟨l', rs', hchecked, htrimmed⟩ := checkHistoryFileNum_trimmed hmax hlisted (hsame.fileList.trans hnil)
  have heq := hchecked.symm.trans hlist
  have hl : l' = l := congrArg LogFileObject.fileList heq
  have hrs : rs' = rs := List.append_cancel_left (congrArg LogFileObject.retired heq)
  rw [hl, hrs, ← hnone, ← hfileList] at htrimmed
  refine h.trimmed [e.name] htrimmed ?_ ?_ (Or.inr hold) fun hnot => ?_
  · rw [hretired, hsame.retired]
  · rw [hopens, hsame.opens]
  · cases hinitialized.symm.trans hnot

theorem prepare_registry {force : Bool} {message : Text} (h : Registry cfg t) (hmax : 1 ≤ cfg.maxLogfileNum)
    (hbase : ¬ (t.object.baseFilenameSelected = true ∧ t.object.baseFilename = []))
    (hsucceeds : Succeeds cfg t env p force timestamp message) (hregisters : Registers cfg env timestamp t.object p)
    (hunlinked : unlinked t.object (write cfg env force timestamp message t.object p).1 =
      unlinked t.object (prepare cfg env timestamp t.object p).2.1) :
    Registry cfg (t.next (prepare cfg env timestamp t.object p).2.1) := by
  obtain ⟨hlisted, hstat, hreopens, hmade⟩ := hsucceeds
  rw [hunlinked] at hstat
  replace hregisters := hregisters hbase
  unfold prepare at hstat ⊢
  dsimp only at hstat ⊢
  generalize checkNeedRollLogFiles cfg env timestamp t.object p = need at *
  have hreopened := reopenHistory_reopened cfg env timestamp (rollIfNeeded need.1 t.object)
  have horigin := @originName_rollIfNeeded cfg timestamp t.object need.2 need.1
  have hsame := @sameRecord_rollIfNeeded t.object need.1
  have hnewest := newestHistory_rollIfNeeded cfg env need.1 t.object
  have hscanned := @scanned_rolled cfg env t.object need.1
  have hdue := @due_of_rolled t.object need.1
  rw [← reopenedFile_rollIfNeeded cfg env need.1] at hmade hregisters
  generalize hresult : reopenHistory cfg env timestamp (rollIfNeeded need.1 t.object) = o₁ at *
  generalize rollIfNeeded need.1 t.object = rolled at *
  cases hreopened with
  | skipped hskipped =>
    cases hfile : o₁.file with
    | some f =>
      exact h.quiet hsame
    | none =>
      rw [hfile, Option.isNone_none, if_pos rfl] at hstat
      rw [Option.isNone_none, if_pos rfl]
      rw [← horigin] at hmade hregisters
      exact makeFile_registry h hmax hlisted (hscanned hfile) (fun path => (hstat path).mp) (hmade (hskipped hfile))
        fun hattempt => hregisters (hskipped hfile) (hdue hfile hattempt)
  | failed l rs paths hfile hpolicy hinit hpaths hlist hvain =>
    have hinit' : t.object.initialized = false := hsame.initialized.symm.trans hinit
    have hnone : newestHistory cfg env t.object = none := by
      refine Option.eq_none_iff_forall_ne_some.mpr fun e he => ?_
      obtain ⟨inode, hopen⟩ := hreopens hinit' hpolicy e he
      rw [reopenedFile_eq cfg env hpolicy hinit (hnewest.trans he) hopen] at hvain
      cases hvain
    obtain ⟨rfl, rfl, hscanned'⟩ := (hscanned hfile).reopened_none hinit' (hnewest.trans hnone) hnone hpaths hlist
    rw [List.append_nil] at hstat ⊢
    have hisNone : rolled.file.isNone = true := Option.isNone_iff_eq_none.mpr hfile
    rw [if_pos hisNone] at hstat ⊢
    rw [← horigin] at hmade hregisters
    exact makeFile_registry h hmax hlisted hscanned' (fun path => (hstat path).mp) (hmade hvain)
      fun hattempt => hregisters hvain (hdue hfile hattempt)
  | success l rs e inode isNew hfile hpolicy hinit hnewest' hopen hlist =>
    have hinit' : t.object.initialized = false := hsame.initialized.symm.trans hinit
    obtain ⟨inode', hopen'⟩ := hreopens hinit' hpolicy e (hnewest ▸ hnewest')
    cases hopen.symm.trans hopen'
    exact h.reopened hmax hlisted hsame hinit' hlist rfl rfl rfl rfl rfl

theorem write_registry {force : Bool} {message : Text} (h : Registry cfg t) (hmax : 1 ≤ cfg.maxLogfileNum)
    (hsucceeds : Succeeds cfg t env p force timestamp message) (hregisters : Registers cfg env timestamp t.object p) :
    Registry cfg (t.next (write cfg env force timestamp message t.object p).1) := by
  by_cases hbase : t.object.baseFilenameSelected = true ∧ t.object.baseFilename = []
  · rw [write, if_pos hbase]
    exact h.quiet ⟨rfl, rfl, rfl, rfl⟩
  · obtain ⟨_, _, _, _, _, _, _, hframe⟩ := @write_frame cfg env timestamp t.object p force message hbase
    have hsame :
        SameRecord (prepare cfg env timestamp t.object p).2.1 (write cfg env force timestamp message t.object p).1 := by
      rw [hframe]
      exact ⟨rfl, rfl, rfl, rfl⟩
    have hnew : newFile (write cfg env force timestamp message t.object p).1 =
        newFile (prepare cfg env timestamp t.object p).2.1 := by
      rw [write, if_neg hbase]
      dsimp only
      split
      · exact newFile_writeMessage force message
      · rfl
    refine (prepare_registry h hmax hbase hsucceeds hregisters ?_).of_same hsame hnew
    rw [unlinked, hsame.retired, unlinked]

end

/-! ### The registry in a run -/

section
variable {cfg : Config} {t : Tracked}

/-- The file operations of a step succeed. -/
def Works (cfg : Config) (t : Tracked) : Op → Prop
  | .write env p force timestamp message => Succeeds cfg t env p force timestamp message
  | .flush _ | .setBasename _ | .setExtension _ | .setSymlinkBasename _ => True

/-- If a step makes a file, the name that it records is a new one, and names the file. -/
def Names (cfg : Config) (t : Tracked) : Op → Prop
  | .write env p _ timestamp _ => Registers cfg env timestamp t.object p
  | .flush _ | .setBasename _ | .setExtension _ | .setSymlinkBasename _ => True

theorem track_registry {op : Op} (h : Registry cfg t) (hmax : 1 ≤ cfg.maxLogfileNum) (hworks : Works cfg t op)
    (hnames : Names cfg t op) : Registry cfg (track cfg t op) := by
  cases op with
  | write env p force timestamp message => exact write_registry h hmax hworks hnames
  | flush now =>
    refine h.quiet ?_
    unfold step flush
    dsimp only
    split <;> exact ⟨rfl, rfl, rfl, rfl⟩
  | setBasename basename =>
    refine h.quiet ?_
    unfold step setBasename
    dsimp only
    split
    · split <;> exact ⟨rfl, rfl, rfl, rfl⟩
    · exact ⟨rfl, rfl, rfl, rfl⟩
  | setExtension ext =>
    refine h.quiet ?_
    unfold step setExtension
    dsimp only
    split
    · split <;> exact ⟨rfl, rfl, rfl, rfl⟩
    · exact ⟨rfl, rfl, rfl, rfl⟩
  | setSymlinkBasename basename => exact h.quiet ⟨rfl, rfl, rfl, rfl⟩

/-- Each file that has been created and not removed has exactly one entry, each entry names an existing file, and there are
    no more of the created files than the limit. -/
structure NamesFiles (cfg : Config) (t : Tracked) : Prop where
  once : ∀ x ∈ t.created, (fileNames t.object.fileList).count x = 1
  existing : ∀ name ∈ fileNames t.object.fileList, name ∈ t.files
  distinct : t.created.Nodup
  few : t.created.length ≤ cfg.maxLogfileNum

theorem Registry.namesFiles (h : Registry cfg t) : NamesFiles cfg t where
  once x hx := List.count_eq_one_of_mem h.distinct (h.named x hx)
  existing := h.existing
  distinct := h.single
  few := by
    have hle := List.Nodup.length_le_of_subset h.single h.named
    rw [fileNames, List.length_map] at hle
    exact Nat.le_trans hle h.short

/-- The object at the start, with the files that there are. -/
def Tracked.start (cfg : Config) (severity : Severity) (base : Option Text) (now : Int) (tm : Tm)
    (files : List Text) : Tracked where
  object := .new cfg severity base now tm
  files := files
  created := []

theorem registry_start (severity : Severity) (base : Option Text) (now : Int) (tm : Tm) (files : List Text) :
    Registry cfg (.start cfg severity base now tm files) where
  distinct := List.nodup_nil
  existing _ hname := absurd hname List.not_mem_nil
  named _ hx := absurd hx List.not_mem_nil
  single := List.nodup_nil
  short := Nat.zero_le _
  early _ := ⟨rfl, rfl⟩

/-- In every run whose writes all keep the registry it agrees with the files. -/
theorem registry_namesFiles {severity : Severity} {base : Option Text} {now : Int} {tm : Tm} {files : List Text}
    (hmax : 1 ≤ cfg.maxLogfileNum)
    (hrun : Run.Reaches (track cfg) (fun t op => Works cfg t op ∧ Names cfg t op)
      (.start cfg severity base now tm files) t) :
    NamesFiles cfg t :=
  Registry.namesFiles <| hrun.invariant (registry_start severity base now tm files) fun _ _ ht hok =>
    track_registry ht hmax hok.1 hok.2

end

/-- A plain file system before the first file, and with a file `a`. -/
def fixedConfig : Config := { plainConfig with timestampInLogfileName := false }

def existingEnv : Env :=
  { plainEnv with
    stat := fun name => if name = ['a'] then some ⟨0, 0⟩ else none
    openFile := fun _ _ => .success 1 false }

theorem listed_of_empty {cfg : Config} {env : Env} {files : List Text} (h : env.listing = some []) :
    Listed cfg env files where
  entries :=
    ⟨[], h, List.nodup_nil, fun _ hentry => absurd hentry List.not_mem_nil, fun _ hentry => absurd hentry List.not_mem_nil⟩

def startFixed (cfg : Config) : Tracked := .start cfg .info (some ['a']) 0 (plainTm 0) []

theorem succeeds_first : Succeeds fixedConfig (startFixed fixedConfig) plainEnv plainProcess false 0 ['x'] where
  listed := listed_of_empty rfl
  stat path := by
    refine ⟨fun h => absurd rfl h, fun h => ?_⟩
    exact absurd (mem_remaining.mp h).1 List.not_mem_nil
  reopened _ hpolicy := by cases hpolicy
  made _ origin _ := ⟨1, true, rfl, fun _ => Or.inl rfl, fun _ => rfl⟩

/-- The file that the first message makes. -/
def trackedFirst : Tracked := track fixedConfig (startFixed fixedConfig) (plainWrite 0 ['x'])

theorem succeeds_second : Succeeds fixedConfig trackedFirst existingEnv plainProcess false 1 ['x'] where
  listed := listed_of_empty rfl
  stat path := by
    have hfiles : remaining trackedFirst.files (unlinked trackedFirst.object
        (write fixedConfig existingEnv false 1 ['x'] trackedFirst.object plainProcess).1) = [['a']] := by decide
    rw [hfiles, List.mem_singleton]
    change (if path = ['a'] then some _ else none) ≠ none ↔ path = ['a']
    split
    · rename_i heq
      exact ⟨fun _ => heq, fun _ => nofun⟩
    · rename_i hne
      exact ⟨fun h => absurd rfl h, fun h => absurd h hne⟩
  reopened _ hpolicy := by cases hpolicy
  made _ origin horigin := by
    have heq : originName fixedConfig 1 trackedFirst.object
        (checkNeedRollLogFiles fixedConfig existingEnv 1 trackedFirst.object plainProcess).2 = some ['a'] := by decide
    rw [heq] at horigin
    cases horigin
    exact ⟨1, false, rfl, by decide⟩

/-- A file system with these files. -/
def diskEnv (files : List Text) : Env := { plainEnv with stat := fun name => if name ∈ files then some ⟨0, 0⟩ else none }

/-- A write on a day, when these files are there in the end. -/
def dailyWrite (files : List Text) (day : Int) : Op := .write (diskEnv files) plainProcess false day ['x']

theorem works_daily {t : Tracked} {files : List Text} {day : Int} {name : Text}
    (hfiles : remaining t.files
      (unlinked t.object (write plainConfig (diskEnv files) false day ['x'] t.object plainProcess).1) = files)
    (horigin : originName plainConfig day t.object
      (checkNeedRollLogFiles plainConfig (diskEnv files) day t.object plainProcess).2 = some name)
    (hfree : name ∉ files) (hnew : name ∉ fileNames (prune plainConfig (diskEnv files) t.object).fileList) :
    Works plainConfig t (dailyWrite files day) ∧ Names plainConfig t (dailyWrite files day) := by
  have hstat : (diskEnv files).stat name = none := if_neg hfree
  have hchoice : chooseFileName plainConfig (diskEnv files) name
      (checkNeedRollLogFiles plainConfig (diskEnv files) day t.object plainProcess).2 = ⟨name, [], none⟩ := by
    rw [chooseFileName, hstat]
  refine ⟨⟨listed_of_empty rfl, fun path => ?_, fun _ hpolicy => ?_, fun _ origin horigin' => ?_⟩, ?_⟩
  · rw [hfiles]
    change (if path ∈ files then some _ else none) ≠ none ↔ path ∈ files
    split
    · rename_i hmem
      exact ⟨fun _ => hmem, fun _ => Option.some_ne_none _⟩
    · rename_i hnot
      exact ⟨fun h => absurd rfl h, fun h => absurd h hnot⟩
  · cases hpolicy
  · rw [horigin] at horigin'
    cases horigin'
    rw [hchoice]
    exact ⟨1, true, rfl, fun _ => Or.inl hstat, fun _ => rfl⟩
  · intro _ _ _ origin horigin'
    rw [horigin] at horigin'
    cases horigin'
    exact ⟨hnew, Or.inl (congrArg Choice.name hchoice)⟩

def trackedOne : Tracked := track plainConfig (startFixed plainConfig) (dailyWrite [] 0)

def trackedTwo : Tracked := track plainConfig trackedOne (dailyWrite ["a20000101.7".toList] 1)

def trackedThree : Tracked := track plainConfig trackedTwo (dailyWrite ["a20000102.7".toList] 2)

/-- Of three files, one for each day, the first one is removed when the third one is made. -/
theorem registry_namesFiles_three : NamesFiles plainConfig trackedThree ∧
    trackedThree.files = ["a20000103.7".toList, "a20000102.7".toList] := by
  refine ⟨?_, by decide⟩
  have hfirst :=
    @works_daily (startFixed plainConfig) [] 0 "a20000101.7".toList (by decide) (by decide) (by decide) (by decide)
  have hsecond :=
    @works_daily trackedOne ["a20000101.7".toList] 1 "a20000102.7".toList (by decide) (by decide) (by decide) (by decide)
  have hthird :=
    @works_daily trackedTwo ["a20000102.7".toList] 2 "a20000103.7".toList (by decide) (by decide) (by decide) (by decide)
  have hrun : Run.Reaches (track plainConfig) (fun t op => Works plainConfig t op ∧ Names plainConfig t op)
      (startFixed plainConfig) trackedThree := .next _ (.next _ (.next _ .start hfirst) hsecond) hthird
  exact registry_namesFiles (by decide) hrun

/-- The file is opened again, and recorded again. -/
theorem not_registry_namesFiles : ¬ ∀ (cfg : Config) (severity : Severity) (base : Option Text) (now : Int) (tm : Tm)
    (files : List Text) (t : Tracked), 1 ≤ cfg.maxLogfileNum →
      Run.Reaches (track cfg) (Works cfg) (.start cfg severity base now tm files) t → NamesFiles cfg t := fun h => by
  have hfirst : Run.Reaches (track fixedConfig) (Works fixedConfig) (startFixed fixedConfig) trackedFirst :=
    Run.Reaches.start.next (plainWrite 0 ['x']) succeeds_first
  have hnames := h fixedConfig .info (some ['a']) 0 (plainTm 0) [] _ (by decide)
    (hfirst.next (Op.write existingEnv plainProcess false 1 ['x']) succeeds_second)
  exact absurd (hnames.once ['a'] (by decide)) (by decide)

end Glog.LogFile
