import Mathlib.Data.List.TakeWhile
import Glog.Cleaner.Agreement
import Glog.Files.Links

/-! # The link to the newest file

`CreateLogfile` makes a symbolic link in the working directory, and one in the directory of `FLAGS_log_link`. Its name is
the base name with another extension, and its target is the name of the log file without its directory. -/

namespace Glog.LogFile
open LogCleaner Files

/-! ### Paths -/

/-- `path::extension`. -/
def extension (path : Text) : Text :=
  let name := fileName path
  let back := name.reverse.takeWhile (· ≠ '.')
  if name = ['.', '.'] then []
  else if back.length + 1 < name.length then '.' :: back.reverse
  else []

/-- A text that is not empty gets a dot in front, if it has none. -/
def withDot (text : Text) : Text := if text = [] ∨ text.head? = some '.' then text else '.' :: text

/-- `path::replace_extension`. -/
def replaceExtension (path replacement : Text) : Text :=
  path.take (path.length - (extension path).length) ++ withDot replacement

/-- A path as the front of another one. -/
def asDirectory (path : Text) : Text := if fileName path = [] then path else path ++ ['/']

/-- `operator/`, for a name behind it. -/
def appendPath (path name : Text) : Text := asDirectory path ++ name

theorem not_mem_fileName (path : Text) : '/' ∉ fileName path := fun h => by
  rw [fileName, List.mem_reverse] at h
  have hne := List.mem_takeWhile_imp h
  exact of_decide_eq_true hne rfl

theorem dirPart_fileName (path : Text) : dirPart (fileName path) = [] := by
  have hparts := dirPart_append_fileName (fileName path)
  rw [fileName_of_not_mem (not_mem_fileName path)] at hparts
  exact List.append_left_eq_self.mp hparts

theorem extension_suffix (path : Text) : extension path <:+ path := by
  refine List.IsSuffix.trans ?_ ⟨dirPart path, dirPart_append_fileName path⟩
  rw [extension]
  generalize fileName path = name
  split
  · exact List.nil_suffix
  · split
    · rename_i hlength
      have hparts := List.takeWhile_append_dropWhile (p := (· ≠ '.')) (l := name.reverse)
      cases hrest : name.reverse.dropWhile (· ≠ '.') with
      | nil =>
        rw [hrest, List.append_nil] at hparts
        rw [hparts, List.length_reverse] at hlength
        omega
      | cons c rest =>
        have hdot : c = '.' := by
          have hhead := List.head?_dropWhile_not (p := (· ≠ '.')) name.reverse
          rw [hrest] at hhead
          simpa using hhead
        rw [hrest, hdot] at hparts
        have hname := congrArg List.reverse hparts
        rw [List.reverse_append, List.reverse_cons, List.reverse_reverse, List.append_assoc] at hname
        exact ⟨rest.reverse, hname⟩
    · exact List.nil_suffix

theorem asDirectory_eq {path : Text} (h : path ≠ []) : ∃ l, asDirectory path = l ++ ['/'] := by
  rw [asDirectory]
  split
  · rename_i hname
    by_cases hmem : '/' ∈ path
    · obtain ⟨l, r, heq, hr⟩ := exists_last_delim hmem
      rw [heq, fileName_append hr] at hname
      rw [heq, hname]
      exact ⟨l, rfl⟩
    · exact absurd ((fileName_of_not_mem hmem).symm.trans hname) h
  · exact ⟨path, rfl⟩

/-! ### Links -/

/-- What a call finds and leaves alone: the directories, and what lies behind the names of the severities. No directory part
    leads through an entry that is replaced. -/
structure Surroundings (Dir : Type) where
  cwd : Dir
  /-- Where the directory part of a path leads to, from a directory. -/
  walk : Dir → Text → Option Dir
  walk_nil : ∀ d, walk d [] = some d
  /-- `FLAGS_log_link`. -/
  logLink : Text
  /-- What `'.' + LogSeverityNames[severity_]` points to: the sum is 46 bytes behind the start of the name. -/
  behindName : Severity → Text

section
variable {Dir : Type}

def Surroundings.locate (w : Surroundings Dir) (d : Dir) (path : Text) : Option (Dir × Text) :=
  (w.walk d (dirPart path)).map fun d' => (d', fileName path)

variable {w : Surroundings Dir}

theorem locate_of_walk {d d' : Dir} {path : Text} (h : w.walk d (dirPart path) = some d') :
    w.locate d path = some (d', fileName path) := by
  rw [Surroundings.locate, h]
  rfl

theorem locate_fileName (d : Dir) (path : Text) : w.locate d (fileName path) = some (d, fileName path) := by
  rw [Surroundings.locate, dirPart_fileName, w.walk_nil, fileName_of_not_mem (not_mem_fileName path)]
  rfl

theorem locate_appendPath {d d' : Dir} {path : Text} (hpath : path ≠ []) (h : w.walk d (asDirectory path) = some d')
    (name : Text) :
    w.locate d (appendPath path (fileName name)) = some (d', fileName name) := by
  obtain ⟨l, heq⟩ := asDirectory_eq hpath
  rw [heq] at h
  rw [appendPath, heq, List.append_assoc, List.singleton_append, Surroundings.locate,
    dirPart_append (not_mem_fileName name), fileName_append (not_mem_fileName name), h]
  rfl

variable [DecidableEq Dir]

/-- Removes what is there and makes the link. -/
def makeLink (w : Surroundings Dir) (linkpath target : Text) (entries : Entries Dir Text Text Nat) :
    Entries Dir Text Text Nat :=
  match w.locate w.cwd linkpath with
  | some (d, name) => put entries d name (.link target)
  | none => entries

def linkpath (w : Surroundings Dir) (o : LogFileObject) : Text :=
  replaceExtension o.symlinkBasename (w.behindName o.severity)

/-- The links for a log file that has been opened. -/
def createSymlinks (w : Surroundings Dir) (filename : Text) (o : LogFileObject) (entries : Entries Dir Text Text Nat) :
    Entries Dir Text Text Nat :=
  if o.symlinkBasename = [] then entries
  else
    let entries := makeLink w (linkpath w o) (fileName filename) entries
    if w.logLink = [] then entries
    else makeLink w (appendPath w.logLink (fileName (linkpath w o))) filename entries

/-- `CreateLogfile` with its links, from the entries that there are when the file is open. -/
def createLinkedLogfile (cfg : Config) (env : Env) (w : Surroundings Dir) (timePid : Text) (timestamp : Int)
    (o : LogFileObject)
    (p : Process) (entries : Entries Dir Text Text Nat) : Bool × Entries Dir Text Text Nat :=
  if (createLogfile cfg env timePid timestamp o p).1 then
    (true, createSymlinks w (getSuitableFileName cfg env (logfileName cfg timePid o) p).1 o entries)
  else (false, entries)

/-! ### The newest file -/

def latestName (o : LogFileObject) : Text := o.symlinkBasename ++ '.' :: o.severity.name

/-- In the directory of a log file that is there under its name, a link leads to it. -/
def LinksLatest (cfg : Config) (env : Env) (w : Surroundings Dir) (timePid : Text) (timestamp : Int)
    (o : LogFileObject) (p : Process) (dir : Dir) (name : Text) : Prop :=
  ∀ entries inode, entries dir name = some (.file inode) →
    ∃ target, (createLinkedLogfile cfg env w timePid timestamp o p entries).2 dir (latestName o) = some (.link target) ∧
      Resolves w.locate (createLinkedLogfile cfg env w timePid timestamp o p entries).2 dir target inode

/-- The name of the link is right and not that of the log file; the link is in the directory of the log file, or the one of
    `FLAGS_log_link` is, and then the path of the log file leads from there to it. -/
structure LinkPlaced (w : Surroundings Dir) (filename : Text) (o : LogFileObject) (dir : Dir) : Prop where
  name : fileName (linkpath w o) = latestName o
  apart : fileName filename ≠ latestName o
  link : w.logLink = [] ∨ w.walk w.cwd (asDirectory w.logLink) ≠ some dir → w.walk w.cwd (dirPart (linkpath w o)) = some dir
  logLink : w.logLink ≠ [] → w.walk w.cwd (asDirectory w.logLink) = some dir → w.walk dir (dirPart filename) = some dir

/-- The links can be made. -/
structure CanLink (w : Surroundings Dir) (o : LogFileObject) : Prop where
  link : (w.walk w.cwd (dirPart (linkpath w o))).isSome
  logLink : w.logLink ≠ [] → (w.walk w.cwd (asDirectory w.logLink)).isSome

variable {filename : Text} {o : LogFileObject} {entries : Entries Dir Text Text Nat}

theorem makeLink_of_locate {d : Dir} {path target name : Text} (h : w.locate w.cwd path = some (d, name)) :
    makeLink w path target entries = put entries d name (.link target) := by
  rw [makeLink, h]

/-- The entries behind the call: one new link, or another one too. -/
theorem createSymlinks_cases (filename : Text) (entries : Entries Dir Text Text Nat) (hsymlink : o.symlinkBasename ≠ [])
    (hcan : CanLink w o) : ∃ d₁,
    w.walk w.cwd (dirPart (linkpath w o)) = some d₁ ∧
      (w.logLink = [] ∧ createSymlinks w filename o entries =
          put entries d₁ (fileName (linkpath w o)) (.link (fileName filename)) ∨
        ∃ d₂, w.logLink ≠ [] ∧ w.walk w.cwd (asDirectory w.logLink) = some d₂ ∧ createSymlinks w filename o entries =
          put (put entries d₁ (fileName (linkpath w o)) (.link (fileName filename))) d₂ (fileName (linkpath w o))
            (.link filename)) := by
  obtain ⟨d₁, hlink⟩ := Option.isSome_iff_exists.mp hcan.link
  refine ⟨d₁, hlink, ?_⟩
  rw [createSymlinks, if_neg hsymlink, makeLink_of_locate (locate_of_walk hlink)]
  by_cases hlog : w.logLink = []
  · left
    exact ⟨hlog, if_pos hlog⟩
  · right
    obtain ⟨d₂, hwalk⟩ := Option.isSome_iff_exists.mp (hcan.logLink hlog)
    refine ⟨d₂, hlog, hwalk, ?_⟩
    rw [if_neg hlog]
    exact makeLink_of_locate (locate_appendPath hlog hwalk _)

/-! ### Where the link is right -/

theorem createSymlinks_latest (hsymlink : o.symlinkBasename ≠ []) (hcan : CanLink w o) {dir : Dir} {inode : Nat}
    (hplaced : LinkPlaced w filename o dir) (hfile : entries dir (fileName filename) = some (.file inode)) :
    ∃ target, createSymlinks w filename o entries dir (latestName o) = some (.link target) ∧
      Resolves w.locate (createSymlinks w filename o entries) dir target inode := by
  obtain ⟨d₁, hwalk, hcases⟩ := createSymlinks_cases filename entries hsymlink hcan
  rw [hplaced.name] at hcases
  rcases hcases with ⟨hlog, heq⟩ | ⟨d₂, hlog, hwalk₂, heq⟩
  · have hdir : d₁ = dir := Option.some.inj (hwalk.symm.trans (hplaced.link (Or.inl hlog)))
    rw [heq, hdir]
    refine ⟨fileName filename, put_same _ _ _, .file (locate_fileName dir filename) ?_⟩
    rw [put_of_name hplaced.apart]
    exact hfile
  · by_cases hdir : d₂ = dir
    · rw [heq, hdir]
      refine ⟨filename, put_same _ _ _, .file (locate_of_walk (hplaced.logLink hlog (hdir ▸ hwalk₂))) ?_⟩
      rw [put_of_name hplaced.apart, put_of_name hplaced.apart]
      exact hfile
    · have hother : w.walk w.cwd (asDirectory w.logLink) ≠ some dir := fun h => hdir (Option.some.inj (hwalk₂.symm.trans h))
      have hdir₁ : d₁ = dir := Option.some.inj (hwalk.symm.trans (hplaced.link (Or.inr hother)))
      rw [heq, hdir₁]
      refine ⟨fileName filename, ?_, .file (locate_fileName dir filename) ?_⟩
      · rw [put_of_dir (Ne.symm hdir), put_same]
      · rw [put_of_name hplaced.apart, put_of_name hplaced.apart]
        exact hfile

/-- No entry but the log file. -/
def onlyFile (dir : Dir) (name : Text) : Entries Dir Text Text Nat :=
  fun d n => if d = dir ∧ n = name then some (.file 0) else none

theorem onlyFile_file {dir d : Dir} {name n : Text} {inode : Nat} (h : onlyFile dir name d n = some (.file inode)) :
    d = dir ∧ n = name := by
  by_cases hsame : d = dir ∧ n = name
  · exact hsame
  · rw [onlyFile, if_neg hsame] at h
    cases h

theorem onlyFile_link {dir d : Dir} {name n target : Text} : onlyFile dir name d n ≠ some (.link target) := by
  rw [onlyFile]
  split
  · intro h
    cases h
  · intro h
    cases h

/-- A file that is there afterwards is the log file, and neither link has its place. -/
theorem file_of_links {dir d₁ d₂ d : Dir} {file name n t₁ t₂ : Text} {inode : Nat}
    (h : put (put (onlyFile dir file) d₁ name (.link t₁)) d₂ name (.link t₂) d n = some (.file inode)) :
    d = dir ∧ n = file ∧ (n = name → dir ≠ d₁ ∧ dir ≠ d₂) := by
  obtain ⟨h, hnot₂⟩ := file_of_put h
  obtain ⟨h, hnot₁⟩ := file_of_put h
  obtain ⟨rfl, rfl⟩ := onlyFile_file h
  exact ⟨rfl, rfl, fun hname => ⟨fun hdir => hnot₁ ⟨hdir, hname⟩, fun hdir => hnot₂ ⟨hdir, hname⟩⟩⟩

theorem link_of_links {dir d₁ d₂ d : Dir} {file name n t₁ t₂ target : Text}
    (h : put (put (onlyFile dir file) d₁ name (.link t₁)) d₂ name (.link t₂) d n = some (.link target)) :
    n = name ∧ (d = d₂ ∨ d = d₁) := by
  rcases link_of_put h with ⟨hdir, hname, -⟩ | h
  · exact ⟨hname, Or.inl hdir⟩
  · rcases link_of_put h with ⟨hdir, hname, -⟩ | h
    · exact ⟨hname, Or.inr hdir⟩
    · exact absurd h onlyFile_link

/-- Without `FLAGS_log_link`. -/
theorem linkPlaced_of_link {dir d₁ : Dir} {target : Text} (hlog : w.logLink = [])
    (hwalk : w.walk w.cwd (dirPart (linkpath w o)) = some d₁)
    (hlink : put (onlyFile dir (fileName filename)) d₁ (fileName (linkpath w o)) (.link (fileName filename))
      dir (latestName o) = some (.link target))
    (hresolves : Resolves w.locate
      (put (onlyFile dir (fileName filename)) d₁ (fileName (linkpath w o)) (.link (fileName filename))) dir target 0) :
    LinkPlaced w filename o dir := by
  rcases link_of_put hlink with ⟨hdir, hname, -⟩ | hold
  · obtain ⟨d, n, hfile⟩ := hresolves.exists_file
    obtain ⟨hold, hnot⟩ := file_of_put hfile
    obtain ⟨rfl, rfl⟩ := onlyFile_file hold
    exact ⟨hname.symm, fun h => hnot ⟨hdir, h.trans hname⟩, fun _ => hdir ▸ hwalk, fun h => absurd hlog h⟩
  · exact absurd hold onlyFile_link

/-- The second link leads through the path of the log file, if it is the one that stands in the directory. -/
theorem linkPlaced_of_links {dir d₁ d₂ : Dir} {target : Text} (hlog : w.logLink ≠ [])
    (hwalk : w.walk w.cwd (dirPart (linkpath w o)) = some d₁) (hwalk₂ : w.walk w.cwd (asDirectory w.logLink) = some d₂)
    (hlink : put (put (onlyFile dir (fileName filename)) d₁ (fileName (linkpath w o)) (.link (fileName filename))) d₂
      (fileName (linkpath w o)) (.link filename) dir (latestName o) = some (.link target))
    (hresolves : Resolves w.locate (put (put (onlyFile dir (fileName filename)) d₁ (fileName (linkpath w o))
      (.link (fileName filename))) d₂ (fileName (linkpath w o)) (.link filename)) dir target 0) :
        LinkPlaced w filename o dir := by
  obtain ⟨hname, hdirs⟩ := link_of_links hlink
  have hapart : fileName filename ≠ latestName o := fun heq => by
    obtain ⟨d, n, hfile⟩ := hresolves.exists_file
    obtain ⟨-, rfl, hfree⟩ := file_of_links hfile
    obtain ⟨hne₁, hne₂⟩ := hfree (heq.trans hname)
    exact hdirs.elim hne₂ hne₁
  refine ⟨hname.symm, hapart, fun h => ?_, fun _ hwalkLog => ?_⟩
  · rcases hdirs with hdir | hdir
    · rcases h with hnone | hother
      · exact absurd hnone hlog
      · exact absurd (hdir ▸ hwalk₂) hother
    · exact hdir ▸ hwalk
  · have hdir : d₂ = dir := Option.some.inj (hwalk₂.symm.trans hwalkLog)
    rw [hname, hdir, put_same] at hlink
    cases hlink
    obtain ⟨d, n, hplace, hentry⟩ := hresolves.exists_place
    obtain ⟨d', hwalk', heq'⟩ := Option.map_eq_some_iff.mp hplace
    obtain ⟨rfl, rfl⟩ := Prod.mk.inj heq'
    rcases hentry with hfile | ⟨target, hlink'⟩
    · rw [(file_of_links hfile).1] at hwalk'
      exact hwalk'
    · exact absurd ((link_of_links hlink').1.trans hname.symm) hapart

/-- Where there is but the log file, a link to it is one of the two that are made. -/
theorem linkPlaced_of_latest (hsymlink : o.symlinkBasename ≠ []) (hcan : CanLink w o) {dir : Dir} {target : Text}
    (hlink : createSymlinks w filename o (onlyFile dir (fileName filename)) dir (latestName o) = some (.link target))
    (hresolves : Resolves w.locate (createSymlinks w filename o (onlyFile dir (fileName filename))) dir target 0) :
    LinkPlaced w filename o dir := by
  obtain ⟨d₁, hwalk, hcases⟩ := createSymlinks_cases filename (onlyFile dir (fileName filename)) hsymlink hcan
  rcases hcases with ⟨hlog, heq⟩ | ⟨d₂, hlog, hwalk₂, heq⟩
  · rw [heq] at hlink hresolves
    exact linkPlaced_of_link hlog hwalk hlink hresolves
  · rw [heq] at hlink hresolves
    exact linkPlaced_of_links hlog hwalk hwalk₂ hlink hresolves

/-- Behind every `CreateLogfile` that succeeds the link is right, exactly under this condition. -/
theorem linksLatest_iff {cfg : Config} {env : Env} {timePid : Text} {timestamp : Int} {p : Process}
    {dir : Dir} {name : Text}
    (hcreated : (createLogfile cfg env timePid timestamp o p).1 = true) (hsymlink : o.symlinkBasename ≠ [])
    (hcan : CanLink w o)
    (hfile : w.locate w.cwd (getSuitableFileName cfg env (logfileName cfg timePid o) p).1 = some (dir, name)) :
    LinksLatest cfg env w timePid timestamp o p dir name ↔
      LinkPlaced w (getSuitableFileName cfg env (logfileName cfg timePid o) p).1 o dir := by
  have hname : name = fileName (getSuitableFileName cfg env (logfileName cfg timePid o) p).1 := by
    obtain ⟨d, -, heq⟩ := Option.map_eq_some_iff.mp hfile
    cases heq
    rfl
  have hentries : ∀ entries : Entries Dir Text Text Nat, (createLinkedLogfile cfg env w timePid timestamp o p entries).2 =
      createSymlinks w (getSuitableFileName cfg env (logfileName cfg timePid o) p).1 o entries := by
    intro entries
    rw [createLinkedLogfile, if_pos hcreated]
  unfold LinksLatest
  simp only [hentries, hname]
  constructor
  · intro h
    obtain ⟨target, hlink, hresolves⟩ := h (onlyFile dir (fileName _)) 0 (if_pos ⟨rfl, rfl⟩)
    exact linkPlaced_of_latest hsymlink hcan hlink hresolves
  · intro hplaced entries inode hentry
    exact createSymlinks_latest hsymlink hcan hplaced hentry

omit [DecidableEq Dir] in
/-- Without slashes and without `FLAGS_log_link`: the text behind the name makes up for the extension that is lost, and the
    working directory is that of the log file. -/
theorem linkPlaced_iff_plain (hbase : '/' ∉ o.symlinkBasename) (hbehind : '/' ∉ w.behindName o.severity)
    (hlog : w.logLink = []) (dir : Dir) : LinkPlaced w filename o dir ↔
      withDot (w.behindName o.severity) = extension o.symlinkBasename ++ '.' :: o.severity.name ∧
        fileName filename ≠ latestName o ∧ w.cwd = dir := by
  have hstem := List.suffix_iff_eq_append.mp (extension_suffix o.symlinkBasename)
  have hdot : '/' ∉ withDot (w.behindName o.severity) := by
    rw [withDot]
    split
    · exact hbehind
    · exact fun h => (List.mem_cons.mp h).elim (by decide) hbehind
  have hpath : '/' ∉ linkpath w o := fun h => (List.mem_append.mp h).elim (fun h => hbase (List.mem_of_mem_take h)) hdot
  have hwalk : w.walk w.cwd (dirPart (linkpath w o)) = some w.cwd := by
    rw [← fileName_of_not_mem hpath, dirPart_fileName, w.walk_nil]
  have hname : fileName (linkpath w o) = latestName o ↔
      withDot (w.behindName o.severity) = extension o.symlinkBasename ++ '.' :: o.severity.name := by
    have hlatest :
        latestName o = o.symlinkBasename.take (o.symlinkBasename.length - (extension o.symlinkBasename).length) ++
        (extension o.symlinkBasename ++ '.' :: o.severity.name) := by
      rw [← List.append_assoc, hstem, latestName]
    rw [fileName_of_not_mem hpath, hlatest, linkpath, replaceExtension, List.append_cancel_left_eq]
  constructor
  · intro h
    exact ⟨hname.mp h.name, h.apart, Option.some.inj (hwalk.symm.trans (h.link (Or.inl hlog)))⟩
  · rintro ⟨hbehindName, hapart, hdir⟩
    exact ⟨hname.mpr hbehindName, hapart, fun _ => hdir ▸ hwalk, fun h => absurd hlog h⟩

end

/-! ### A working directory -/

/-- The directories are told apart by their paths, and the extension is the one that was meant. -/
def homeSurroundings (cwd : Text) : Surroundings Text where
  cwd := cwd
  walk d path := some (if path = [] then d else path)
  walk_nil _ := rfl
  logLink := []
  behindName severity := '.' :: severity.name

/-- The log files are in `/tmp`. -/
def tmpObject : LogFileObject := { plainObject plainConfig with baseFilename := "/tmp/a".toList }

theorem linksLatest_iff_tmp :
    LinksLatest plainConfig plainEnv (homeSurroundings "/tmp/".toList) ".7".toList 0 tmpObject plainProcess
      "/tmp/".toList "a.7".toList ↔
      LinkPlaced (homeSurroundings "/tmp/".toList) "/tmp/a.7".toList tmpObject "/tmp/".toList :=
  linksLatest_iff (by decide) (by decide) ⟨rfl, fun h => absurd rfl h⟩ (by decide)

/-- From another working directory no link comes to be there. -/
theorem not_linksLatest : ¬ ∀ (Dir : Type) (_ : DecidableEq Dir) (cfg : Config) (env : Env) (w : Surroundings Dir)
    (timePid : Text) (timestamp : Int) (o : LogFileObject) (p : Process) (dir : Dir) (name : Text),
    (createLogfile cfg env timePid timestamp o p).1 = true → o.symlinkBasename ≠ [] →
      '/' ∉ o.symlinkBasename → CanLink w o →
    w.locate w.cwd (getSuitableFileName cfg env (logfileName cfg timePid o) p).1 = some (dir, name) →
    LinksLatest cfg env w timePid timestamp o p dir name := fun h => by
  have hlatest :=
    h Text inferInstance plainConfig plainEnv (homeSurroundings "/home/".toList) ".7".toList 0 tmpObject plainProcess
    "/tmp/".toList "a.7".toList (by decide) (by decide) (by decide) ⟨rfl, fun h => absurd rfl h⟩ (by decide)
  obtain ⟨target, hlink, -⟩ := hlatest (onlyFile "/tmp/".toList "a.7".toList) 0 (if_pos ⟨rfl, rfl⟩)
  have hnone :
      ((createLinkedLogfile plainConfig plainEnv (homeSurroundings "/home/".toList) ".7".toList 0 tmpObject plainProcess
      (onlyFile "/tmp/".toList "a.7".toList)).2 "/tmp/".toList (latestName tmpObject)).isSome = false := by decide
  rw [hlink] at hnone
  cases hnone

end Glog.LogFile
