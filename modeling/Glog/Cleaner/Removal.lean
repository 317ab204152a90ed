import Glog.Cleaner.Agreement
import Glog.Cleaner.Interval
import Glog.LogFile.Directories
import Glog.LogFile.Symlink

/-! # What the cleaner removes

`LogCleaner` over whole runs, with the disk that it works on. It is enabled and disabled, it is called when a log file has
been flushed, and in between everyone else does with the disk whatever they want. -/

namespace Glog.LogCleaner
open LogFile Run

/-! ### The disk -/

/-- An entry of a directory; `modified` is the time that `stat` shows. -/
structure DirEntry where
  directory : Nat
  name : Text
  modified : Int
  isDirectory : Bool
  plain : '/' ∉ name ∧ name ≠ ".".toList ∧ name ≠ "..".toList
  deriving DecidableEq

/-- There is one entry of a name in a directory. -/
structure FileSystem where
  files : List DirEntry
  unique : ∀ f ∈ files, ∀ g ∈ files, f.directory = g.directory → f.name = g.name → f = g

/-- The directories that paths lead to, from the working directory on. -/
structure Tree where
  directory : Text → Option Nat
  here : directory ['.'] = directory []

/-- The path leads to the entry. -/
def Tree.leads (tree : Tree) (path : Text) (f : DirEntry) : Bool :=
  decide (tree.directory (dirPart path) = some f.directory ∧ fileName path = f.name)

namespace FileSystem

def readdir (tree : Tree) (fs : FileSystem) (dir : Text) : Option (List Text) :=
  (tree.directory dir).map fun d =>
    ".".toList :: "..".toList :: (fs.files.filter fun f => f.directory = d).map DirEntry.name

def stat (tree : Tree) (fs : FileSystem) (path : Text) : Option Int :=
  (fs.files.find? (tree.leads path)).map DirEntry.modified

/-- A directory is not removed. -/
def unlink (tree : Tree) (fs : FileSystem) (path : Text) : FileSystem where
  files := fs.files.filter fun f => f.isDirectory || !tree.leads path f
  unique f hf g hg := fs.unique f (List.mem_filter.mp hf).1 g (List.mem_filter.mp hg).1

end FileSystem

/-! ### The cleaner -/

/-- What `Run` is called with, and what it finds; `time` is the clock when a path of the directory of this index is
examined. -/
structure CleanCall where
  baseFilenameSelected : Bool
  baseFilename : Text
  filenameExtension : Text
  loggingDirectories : List Text
  logcleansecs : Int
  cycles : Call
  time : Nat → Text → Int
  listed : ∃ env logDir, Directories.getLoggingDirectories env logDir none = some loggingDirectories

structure Cleaner where
  enabled : Bool
  overdueDays : UInt32
  schedule : Schedule
  disk : FileSystem

def isLogLastModifiedOver (tree : Tree) (fs : FileSystem) (time : Text → Int) (days : UInt32) (filepath : Text) : Bool :=
  match fs.stat tree filepath with
  | some modified => decide (time filepath - modified > days.toNat * (60 * 60 * 24))
  | none => false

/-- What a scan finds at a time. -/
def view (tree : Tree) (fs : FileSystem) (time : Text → Int) (days : UInt32) : Disk where
  entries := fs.readdir tree
  isLogLastModifiedOver := isLogLastModifiedOver tree fs time days

/-- The loop over the directories, the first of which has the index `k`. -/
def cleanFrom (tree : Tree) (days : UInt32) (c : CleanCall) : Nat → List Text → FileSystem → FileSystem
  | _, [], fs => fs
  | k, dir :: dirs, fs =>
    let logs := getOverdueLogNames (view tree fs (c.time k) days) dir c.baseFilename c.filenameExtension
    cleanFrom tree days c (k + 1) dirs (logs.foldl (FileSystem.unlink tree) fs)

def CleanCall.directories (c : CleanCall) : List Text :=
  cleanedDirectories c.baseFilenameSelected c.baseFilename c.loggingDirectories

namespace Cleaner

/-- `LogCleaner()`, on a disk. -/
def create (disk : FileSystem) : Cleaner := ⟨false, 7, .start, disk⟩

def enable (overdueDays : UInt32) (s : Cleaner) : Cleaner := { s with enabled := true, overdueDays := overdueDays }

def disable (s : Cleaner) : Cleaner := { s with enabled := false }

def run (tree : Tree) (c : CleanCall) (s : Cleaner) : Cleaner :=
  { s with
    schedule := s.schedule.run c.logcleansecs c.cycles
    disk :=
      -- avoid scanning logs too frequently
      if c.cycles.compared < s.schedule.nextCleanupTime then s.disk
      else cleanFrom tree s.overdueDays c 0 c.directories s.disk }

end Cleaner

inductive CleanEvent
  | enable (overdueDays : UInt32)
  | disable
  /-- A log file object has been flushed. -/
  | flushed (c : CleanCall)
  /-- The disk is changed by others. -/
  | others (change : FileSystem → FileSystem)

def cleanStep (tree : Tree) (s : Cleaner) : CleanEvent → Cleaner
  | .enable overdueDays => s.enable overdueDays
  | .disable => s.disable
  | .flushed c => if s.enabled then s.run tree c else s
  | .others change => { s with disk := change s.disk }

/-! ### Paths -/

section
variable {tree : Tree} {fs : FileSystem} {dir name path base extension : Text} {f g : DirEntry} {days : UInt32}
    {time : Text → Int}

/-- A directory in which entries are examined under their own paths. -/
def Examined (dir : Text) : Prop := dir.getLast? = some '/' ∨ dir = ".".toList

theorem entryPath_parts (hname : '/' ∉ name) : fileName (entryPath dir name) = name ∧
    dirPart (entryPath dir name) = if dir.getLast? = some '/' then dir else [] := by
  rw [entryPath]
  split
  · rename_i hlast
    obtain ⟨front, rfl⟩ := List.getLast?_eq_some_iff.mp hlast
    rw [List.append_assoc, List.singleton_append]
    exact ⟨fileName_append hname, dirPart_append hname⟩
  · have hparts := dirPart_append_fileName name
    rw [fileName_of_not_mem hname, List.append_left_eq_self] at hparts
    exact ⟨fileName_of_not_mem hname, hparts⟩

theorem directory_entryPath (hexamined : Examined dir) (hname : '/' ∉ name) :
    tree.directory (dirPart (entryPath dir name)) = tree.directory dir := by
  rw [(entryPath_parts hname).2]
  rcases hexamined with hlast | rfl
  · rw [if_pos hlast]
  · rw [if_neg (by decide)]
    exact tree.here.symm

theorem leads_entryPath (hexamined : Examined dir) (hname : '/' ∉ name) :
    tree.leads (entryPath dir name) f = true ↔ tree.directory dir = some f.directory ∧ name = f.name := by
  rw [Tree.leads, decide_eq_true_eq, directory_entryPath hexamined hname, (entryPath_parts hname).1]

/-- An entry is found under its path. -/
theorem stat_entryPath (hexamined : Examined dir) (hmem : f ∈ fs.files) (hdir : tree.directory dir = some f.directory) :
    fs.stat tree (entryPath dir f.name) = some f.modified := by
  have hleads : tree.leads (entryPath dir f.name) f = true := (leads_entryPath hexamined f.plain.1).mpr ⟨hdir, rfl⟩
  rw [FileSystem.stat]
  cases hfind : fs.files.find? (tree.leads (entryPath dir f.name)) with
  | none => exact absurd hleads (List.find?_eq_none.mp hfind f hmem)
  | some g =>
    obtain ⟨hdir', hname⟩ := (leads_entryPath hexamined f.plain.1).mp (List.find?_some hfind)
    rw [hdir] at hdir'
    rw [fs.unique f hmem g (List.mem_of_find?_eq_some hfind) (Option.some.inj hdir') hname]
    rfl

/-! ### The files that are found -/

theorem mem_readdir : name ∈ (fs.readdir tree dir).getD [] ∧ name ≠ ".".toList ∧ name ≠ "..".toList ↔
    ∃ f ∈ fs.files, tree.directory dir = some f.directory ∧ f.name = name := by
  rw [FileSystem.readdir]
  cases hdir : tree.directory dir with
  | none => simp
  | some d =>
    simp only [Option.map_some, Option.getD_some, List.mem_cons, List.mem_map, List.mem_filter, decide_eq_true_eq,
      Option.some.injEq]
    constructor
    · rintro ⟨rfl | rfl | ⟨f, ⟨hmem, rfl⟩, rfl⟩, hdot, hdots⟩
      · exact absurd rfl hdot
      · exact absurd rfl hdots
      · exact ⟨f, hmem, rfl, rfl⟩
    · rintro ⟨f, hmem, rfl, rfl⟩
      exact ⟨Or.inr (Or.inr ⟨f, ⟨hmem, rfl⟩, rfl⟩), f.plain.2⟩

theorem mem_getOverdueLogNames : path ∈ getOverdueLogNames (view tree fs time days) dir base extension ↔
    ∃ f ∈ fs.files, tree.directory dir = some f.directory ∧ entryPath dir f.name = path ∧
      isLogFromCurrentProject path base extension = true ∧ isLogLastModifiedOver tree fs time days path = true := by
  rw [getOverdueLogNames, List.mem_filterMap]
  constructor
  · rintro ⟨name, hmem, hpath⟩
    split at hpath
    · cases hpath
    · rename_i hdots
      rw [not_or] at hdots
      dsimp only at hpath
      split at hpath
      · rename_i hboth
        cases hpath
        obtain ⟨f, hf, hdir, rfl⟩ := mem_readdir.mp ⟨hmem, hdots⟩
        exact ⟨f, hf, hdir, rfl, Bool.and_eq_true _ _ ▸ hboth⟩
      · cases hpath
  · rintro ⟨f, hf, hdir, rfl, hrecognized, hold⟩
    obtain ⟨hmem, hdots⟩ := mem_readdir.mpr ⟨f, hf, hdir, rfl⟩
    refine ⟨f.name, hmem, ?_⟩
    have hboth : (isLogFromCurrentProject (entryPath dir f.name) base extension &&
        (view tree fs time days).isLogLastModifiedOver (entryPath dir f.name)) = true := by
      rw [hrecognized]
      exact hold
    rw [if_neg (not_or.mpr hdots)]
    exact if_pos hboth

end

/-! ### What is overdue -/

/-- The file is in the directory, it has the name of a log file, and it is too old. -/
structure Overdue (tree : Tree) (days : UInt32) (c : CleanCall) (k : Nat) (dir : Text) (f : DirEntry) : Prop where
  file : f.isDirectory = false
  directory : tree.directory dir = some f.directory
  recognized : isLogFromCurrentProject (entryPath dir f.name) c.baseFilename c.filenameExtension = true
  old : days.toNat * (60 * 60 * 24) < c.time k (entryPath dir f.name) - f.modified

/-- A call that is due finds the file overdue in one of its directories. -/
def Cleans (tree : Tree) (s : Cleaner) (f : DirEntry) (c : CleanCall) : Prop :=
  s.enabled = true ∧ s.schedule.nextCleanupTime ≤ c.cycles.compared ∧
    ∃ k dir, c.directories[k]? = some dir ∧ Overdue tree s.overdueDays c k dir f

/-- The step does not clean the file away. -/
def Spares (tree : Tree) (f : DirEntry) (s : Cleaner) : CleanEvent → Prop
  | .flushed c => ¬ Cleans tree s f c
  | _ => True

/-- Others leave the file alone. -/
def LeavesAlone (f : DirEntry) (_ : Cleaner) : CleanEvent → Prop
  | .others change => ∀ fs : FileSystem, f ∈ fs.files → f ∈ (change fs).files
  | _ => True

section
variable {tree : Tree} {fs : FileSystem} {days : UInt32} {c : CleanCall} {k : Nat} {dir path : Text}
    {f : DirEntry} {s : Cleaner} {logs : List Text}

theorem mem_unlink : f ∈ (fs.unlink tree path).files ↔ f ∈ fs.files ∧
    (f.isDirectory = false → tree.leads path f = false) := by
  rw [FileSystem.unlink, List.mem_filter]
  cases f.isDirectory <;> simp

theorem mem_foldl_unlink : f ∈ (logs.foldl (FileSystem.unlink tree) fs).files ↔
    f ∈ fs.files ∧ ∀ path ∈ logs, f.isDirectory = false → tree.leads path f = false := by
  induction logs generalizing fs with
  | nil => simp
  | cons path logs ih => rw [List.foldl_cons, ih, mem_unlink, and_assoc, List.forall_mem_cons]

/-- The directory of a base name ends where it is cut off, and every other one is spelled with a delimiter at its end. -/
theorem examined_of_mem (hdir : dir ∈ c.directories) : Examined dir := by
  rw [CleanCall.directories, cleanedDirectories] at hdir
  split at hdir
  · rw [List.mem_singleton] at hdir
    subst hdir
    split
    · rename_i hdelim
      obtain ⟨l, r, hpath, hr⟩ := exists_last_delim hdelim
      rw [hpath, dirPart_append hr]
      exact Or.inl List.getLast?_concat
    · exact Or.inr rfl
  · obtain ⟨env, logDir, hlisted⟩ := c.listed
    exact Or.inl ((Directories.proper_of_getLoggingDirectories hlisted).slashed dir hdir).2

/-- A directory is cleaned. -/
theorem mem_clean (hexamined : Examined dir) :
    f ∈ ((getOverdueLogNames (view tree fs (c.time k) days) dir c.baseFilename c.filenameExtension).foldl
        (FileSystem.unlink tree) fs).files ↔ f ∈ fs.files ∧ ¬ Overdue tree days c k dir f := by
  rw [mem_foldl_unlink]
  refine and_congr_right fun hmem => ?_
  constructor
  · intro hkeeps hoverdue
    have hleads : tree.leads (entryPath dir f.name) f = true :=
      (leads_entryPath hexamined f.plain.1).mpr ⟨hoverdue.directory, rfl⟩
    have hold : isLogLastModifiedOver tree fs (c.time k) days (entryPath dir f.name) = true := by
      rw [isLogLastModifiedOver, stat_entryPath hexamined hmem hoverdue.directory]
      exact decide_eq_true hoverdue.old
    have hlog := mem_getOverdueLogNames.mpr ⟨f, hmem, hoverdue.directory, rfl, hoverdue.recognized, hold⟩
    rw [hkeeps _ hlog hoverdue.file] at hleads
    cases hleads
  · intro hspared path hpath hfile
    obtain ⟨g, hg, hdir, rfl, hrecognized, hold⟩ := mem_getOverdueLogNames.mp hpath
    refine Bool.eq_false_iff.mpr fun hleads => hspared ?_
    obtain ⟨hdir', hname⟩ := (leads_entryPath hexamined g.plain.1).mp hleads
    rw [hdir] at hdir'
    obtain rfl := fs.unique g hg f hmem (Option.some.inj hdir') hname
    rw [isLogLastModifiedOver, stat_entryPath hexamined hg hdir] at hold
    exact ⟨hfile, hdir, hrecognized, of_decide_eq_true hold⟩

theorem mem_cleanFrom {dirs : List Text} (hexamined : ∀ dir ∈ dirs, Examined dir) :
    f ∈ (cleanFrom tree days c k dirs fs).files ↔
      f ∈ fs.files ∧ ∀ j dir, dirs[j]? = some dir → ¬ Overdue tree days c (k + j) dir f := by
  induction dirs generalizing k fs with
  | nil => simp [cleanFrom]
  | cons dir dirs ih =>
    rw [cleanFrom, ih (fun d hd => hexamined d (List.mem_cons_of_mem _ hd)),
      mem_clean (hexamined dir List.mem_cons_self), and_assoc]
    refine and_congr_right fun _ => ?_
    constructor
    · rintro ⟨hfirst, hrest⟩ j d hd
      cases j with
      | zero =>
        cases hd
        exact hfirst
      | succ j =>
        have hnext := hrest j d hd
        rwa [Nat.add_assoc, Nat.add_comm 1] at hnext
    · intro hall
      refine ⟨hall 0 dir rfl, fun j d hd => ?_⟩
      rw [Nat.add_assoc, Nat.add_comm 1]
      exact hall (j + 1) d hd

/-- A step keeps a file exactly if it does not clean it away. -/
theorem mem_cleanStep {e : CleanEvent} (hmem : f ∈ s.disk.files) (h : LeavesAlone f s e) :
    f ∈ (cleanStep tree s e).disk.files ↔ Spares tree f s e := by
  cases e with
  | enable overdueDays => exact iff_of_true hmem trivial
  | disable => exact iff_of_true hmem trivial
  | others change => exact iff_of_true (h s.disk hmem) trivial
  | flushed c =>
    change f ∈ (if s.enabled then s.run tree c else s).disk.files ↔ ¬ Cleans tree s f c
    split
    · rename_i henabled
      unfold Cleaner.run
      dsimp only
      split
      · rename_i hearly
        exact iff_of_true hmem fun hcleans => absurd hcleans.2.1 (Int.not_le.mpr hearly)
      · rename_i hdue
        rw [mem_cleanFrom fun dir hdir => examined_of_mem hdir]
        constructor
        · rintro ⟨-, hspared⟩ ⟨-, -, k, dir, hdir, hoverdue⟩
          rw [← Nat.zero_add k] at hoverdue
          exact hspared k dir hdir hoverdue
        · refine fun hnot => ⟨hmem, fun k dir hdir hoverdue => hnot ⟨henabled, Int.not_lt.mp hdue, k, dir, hdir, ?_⟩⟩
          rwa [Nat.zero_add] at hoverdue
    · rename_i hdisabled
      exact iff_of_true hmem fun hcleans => hdisabled hcleans.1

end

/-- A log file that has not been written for four days. -/
def oldFile : DirEntry := ⟨1, "app.20240101-000000.7".toList, 0, false, by decide⟩

def oldDisk : FileSystem := ⟨[oldFile], by simp⟩

def tmpTree : Tree := ⟨fun path => if path = "/tmp/".toList then some 1 else some 0, by decide⟩

/-- A call of a program that is started with `log_dir` set to `/tmp`; its own base name has the delimiter twice. -/
def dailyCall : CleanCall where
  baseFilenameSelected := false
  baseFilename := "/tmp//app.".toList
  filenameExtension := []
  loggingDirectories := ["/tmp/".toList]
  logcleansecs := 300
  cycles := ⟨0, 0, by decide⟩
  time _ _ := 345600
  listed := ⟨⟨⟨none, .failed⟩, ⟨none, .failed⟩, ⟨none, .failed⟩, .directory⟩, "/tmp".toList, by decide⟩

/-- A call before the cleaner is enabled, then another program removes a file of its own, and the next call finds the
old file. -/
def cleanRun : List CleanEvent :=
  [.flushed dailyCall, .enable 3, .others (FileSystem.unlink tmpTree · "/tmp/other".toList), .flushed dailyCall]

end Glog.LogCleaner
