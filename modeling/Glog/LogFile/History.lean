import Glog.LogFile.Creation

/-! # The history scan

The scan takes the files whose names begin with the name of the symbolic link and the severity. A default name has the
host, the user and a tag between the program and the severity. -/

namespace Glog.LogFile

section
variable {cfg : Config} {dir marker name : Text} {severity : Severity} {e : Filetime}

/-! ### The files that are taken -/

/-- The entry of the list for an entry of the directory. -/
def foundFile (dir : Text) (entry : DirEntry) (mtime : Int) : Filetime := ⟨dir ++ '/' :: entry.name, mtime, .disk mtime⟩

/-- A file that is taken, with its time. -/
def IsFound (marker : Text) (entries : List DirEntry) (dir : Text) (e : Filetime) : Prop :=
  ∃ entry ∈ entries, entry.isDirOrLink = false ∧ marker <+: entry.name ∧ ∃ mtime, entry.mtime = some mtime ∧
    e = foundFile dir entry mtime

theorem isFound_cons {entry : DirEntry} {rest : List DirEntry} : IsFound marker (entry :: rest) dir e ↔
    (entry.isDirOrLink = false ∧ marker <+: entry.name ∧ ∃ mtime, entry.mtime = some mtime ∧
      e = foundFile dir entry mtime) ∨
      IsFound marker rest dir e := by
  simp only [IsFound, List.mem_cons, exists_eq_or_imp]

/-- Where `stat` fails for no entry, the list has all files that begin so. -/
theorem mem_scan (entries : List DirEntry) (hstat : ∀ entry ∈ entries, entry.mtime ≠ none) : ∀ found,
    e ∈ (scan dir marker entries found).1 ↔ e ∈ found ∨ IsFound marker entries dir e := by
  induction entries with
  | nil =>
    intro found
    refine ⟨Or.inl, fun h => h.resolve_right ?_⟩
    rintro ⟨entry, hentry, -⟩
    cases hentry
  | cons entry rest ih =>
    intro found
    have hrest := ih fun x hx => hstat x (List.mem_cons_of_mem entry hx)
    rw [isFound_cons]
    unfold scan
    split
    · rename_i hdir
      rw [hrest, hdir]
      simp
    · rename_i hregular
      split
      · rename_i hmarker
        cases hmtime : entry.mtime with
        | none => exact absurd hmtime (hstat entry List.mem_cons_self)
        | some mtime =>
          dsimp only
          rw [hrest, mem_insertFile]
          simp only [Bool.eq_false_iff.mpr hregular, hmarker, foundFile, true_and, Option.some.injEq,
            exists_eq_left', or_assoc]
          exact or_left_comm
      · rename_i hmarker
        rw [hrest]
        simp [hmarker]

/-- A name that the scan takes for one of the object's files, wherever it finds it. -/
def Selects (o : LogFileObject) (name : Text) : Prop :=
  ∀ dir entries, (∃ mtime, ⟨name, false, some mtime⟩ ∈ entries) → (∀ entry ∈ entries, entry.mtime ≠ none) →
    ∃ e ∈ (scan dir (o.symlinkBasename ++ '.' :: o.severity.name) entries []).1, e.name = dir ++ '/' :: name

theorem selects_iff {o : LogFileObject} : Selects o name ↔ o.symlinkBasename ++ '.' :: o.severity.name <+: name := by
  constructor
  · intro h
    obtain ⟨e, he, hname⟩ := h [] [⟨name, false, some 0⟩] ⟨0, List.mem_singleton_self _⟩
      (fun entry hentry => by rw [List.mem_singleton.mp hentry]; exact Option.some_ne_none 0)
    rw [mem_scan _ (fun entry hentry => by rw [List.mem_singleton.mp hentry]; exact Option.some_ne_none 0)] at he
    rcases he with he | ⟨entry, hentry, -, hprefix, -⟩
    · cases he
    · rw [List.mem_singleton.mp hentry] at hprefix
      exact hprefix
  · rintro hprefix dir entries ⟨mtime, hentry⟩ hstat
    exact ⟨foundFile dir ⟨name, false, some mtime⟩ mtime,
      (mem_scan entries hstat []).mpr (Or.inr ⟨_, hentry, rfl, hprefix, mtime, rfl, rfl⟩), rfl⟩

/-! ### The files that are made -/

/-- A name that a `Write` gives to a new file in the first directory, where no base name has been set. -/
def Makes (cfg : Config) (severity : Severity) (name : Text) : Prop :=
  ∃ env o p force timestamp message dir h, cfg.loggingDirectories.head? = some dir ∧
    o.severity = severity ∧ o.baseFilenameSelected = false ∧
    (write cfg env force timestamp message o p).1.creations ≠ o.creations ∧
    (write cfg env force timestamp message o p).1.baseFilename = dir ++ '/' :: strippedFilename cfg o ∧
    (write cfg env force timestamp message o p).1.file = some h ∧ h.path = dir ++ '/' :: name

/-- Such a name has the program in front, and then the host. -/
theorem Makes.name_eq (h : Makes cfg severity name) :
    ∃ rest, name = cfg.programName ++ '.' :: (cfg.hostname ++ '.' :: rest) := by
  obtain ⟨env, o, p, force, timestamp, message, dir, handle, -, -, -, hcreated, hbase, hfile, hpath⟩ := h
  obtain ⟨timePid, q, handle', -, hfile', hpath'⟩ := write_creation hcreated
  cases hfile.symm.trans hfile'
  have hprefix : dir ++ '/' :: strippedFilename cfg o <+: dir ++ '/' :: name := by
    rw [← hpath, hpath', hbase]
    exact (prefix_logfileName cfg timePid { o with baseFilename := dir ++ '/' :: strippedFilename cfg o }).trans
      (prefix_getSuitableFileName ..)
  rw [List.prefix_append_right_inj, List.cons_prefix_cons] at hprefix
  obtain ⟨rest, rfl⟩ := hprefix.2
  exact ⟨_, by simp only [strippedFilename, List.append_assoc, List.cons_append]; rfl⟩

theorem prefix_append_cons_iff {c : Char} {l l₁ l₂ : Text} (h : c ∉ l) : l <+: l₁ ++ c :: l₂ ↔ l <+: l₁ := by
  refine ⟨fun hprefix => ?_, fun hprefix => hprefix.trans (List.prefix_append _ _)⟩
  rcases Nat.lt_or_ge l₁.length l.length with hlt | hle
  · obtain ⟨rest, rfl⟩ := List.prefix_of_prefix_length_le (List.prefix_append l₁ (c :: l₂)) hprefix (Nat.le_of_lt hlt)
    rw [List.prefix_append_right_inj] at hprefix
    cases rest with
    | nil =>
      rw [List.append_nil] at hlt
      omega
    | cons d rest =>
      obtain ⟨rfl, -⟩ := List.cons_prefix_cons.mp hprefix
      exact absurd (List.mem_append_right l₁ List.mem_cons_self) h
  · exact List.prefix_of_prefix_length_le hprefix (List.prefix_append l₁ (c :: l₂)) hle

theorem dot_not_mem_name (severity : Severity) : '.' ∉ severity.name := by cases severity <;> decide

/-- The files of every severity are selected alike: where the name of the host begins with the severity of the object. -/
theorem Makes.selects_iff {o : LogFileObject} (h : Makes cfg severity name)
    (hsymlink : o.symlinkBasename = cfg.programName) :
    Selects o name ↔ o.severity.name <+: cfg.hostname := by
  obtain ⟨rest, rfl⟩ := h.name_eq
  rw [LogFile.selects_iff, hsymlink, List.prefix_append_right_inj, List.cons_prefix_cons]
  exact (and_iff_right rfl).trans (prefix_append_cons_iff (dot_not_mem_name o.severity))

/-- The directory cannot be listed. -/
def unlistedEnv : Env := { plainEnv with listing := none }

theorem reopenHistory_unlisted {timestamp : Int} {o : LogFileObject} (hlist : o.fileList = []) :
    reopenHistory cfg unlistedEnv timestamp o = o := by
  have hcheck : checkHistoryFileNum cfg unlistedEnv o = o := by
    unfold checkHistoryFileNum
    split
    · rename_i hlisting
      cases hlisting
    · rfl
  unfold reopenHistory
  split
  · rw [hcheck]
    dsimp only
    rw [hlist]
    rfl
  · rfl

theorem firstBase_of_unselected {o : LogFileObject} (hselected : o.baseFilenameSelected = false)
    (hdir : cfg.loggingDirectories.head? = some dir) : firstBase cfg o = some (dir ++ '/' :: strippedFilename cfg o) := by
  rw [firstBase, hselected, if_neg Bool.false_ne_true, hdir, Option.map_some]

/-- The first preparation makes a file in the first directory. -/
theorem prepare_new {severity : Severity} {o : LogFileObject} (hdir : cfg.loggingDirectories.head? = some dir)
    (ho : LogFileObject.new cfg severity none 0 (plainTm 0) = o) :
    (prepare cfg unlistedEnv 0 o plainProcess).1 = true ∧ ∃ o' h rest,
      (prepare cfg unlistedEnv 0 o plainProcess).2.1 = writeHeader cfg unlistedEnv (namingTime cfg 0) o' ∧
      o'.creations = o.creations + 1 ∧ o'.baseFilename = dir ++ '/' :: strippedFilename cfg o ∧ o'.file = some h ∧
      h.path = dir ++ '/' :: strippedFilename cfg o ++ rest := by
  generalize hneed : checkNeedRollLogFiles cfg unlistedEnv 0 o plainProcess = need
  have hrolled : (rollIfNeeded need.1 o).file = none ∧ (rollIfNeeded need.1 o).fileList = [] ∧
      (rollIfNeeded need.1 o).rolloverAttempt + 1 = kRolloverAttemptFrequency ∧
      firstBase cfg (rollIfNeeded need.1 o) = some (dir ++ '/' :: strippedFilename cfg o) ∧
      (rollIfNeeded need.1 o).creations = o.creations := by
    have hfirst := firstBase_of_unselected (o := o) (by rw [← ho]; rfl) hdir
    rw [← ho] at hfirst ⊢
    cases need.1 with
    | true => exact ⟨rfl, rfl, rfl, hfirst, rfl⟩
    | false => exact ⟨rfl, rfl, rfl, hfirst, rfl⟩
  obtain ⟨hfile, hlist, hdue, hfirst, hcreations⟩ := hrolled
  have hprepare : prepare cfg unlistedEnv 0 o plainProcess = makeFile cfg unlistedEnv 0 (rollIfNeeded need.1 o) need.2 := by
    unfold prepare
    rw [hneed]
    dsimp only
    rw [reopenHistory_unlisted hlist, hfile]
    rfl
  obtain ⟨l, rs, hpruned⟩ := pruned_eq cfg unlistedEnv 0 (rollIfNeeded need.1 o)
  have hfirst' : firstBase cfg (pruned cfg unlistedEnv 0 (rollIfNeeded need.1 o)) =
      some (dir ++ '/' :: strippedFilename cfg o) := by
    rw [hpruned]
    exact hfirst
  have hcreate :=
    @create_of_firstBase cfg unlistedEnv 0 (pruned cfg unlistedEnv 0 (rollIfNeeded need.1 o)) need.2 _ _ _ 1 true
    hfirst' rfl rfl rfl
  rw [makeFile_due cfg unlistedEnv hdue, hcreate] at hprepare
  dsimp only at hprepare
  rw [if_pos rfl] at hprepare
  generalize hname : logfileName .. = name at hprepare
  have hfront : dir ++ '/' :: strippedFilename cfg o <+: name := by
    rw [← hname]
    exact prefix_logfileName cfg _ { pruned cfg unlistedEnv 0 (rollIfNeeded need.1 o) with
      baseFilename := dir ++ '/' :: strippedFilename cfg o }
  obtain ⟨rest, hrest⟩ := hfront.trans (prefix_getSuitableFileName cfg unlistedEnv name need.2)
  rw [hprepare]
  refine ⟨rfl, _, _, rest, rfl, ?_, rfl, rfl, hrest.symm⟩
  rw [hpruned]
  exact congrArg (· + 1) hcreations

/-- A first `Write` makes a file, for every severity. -/
theorem exists_makes (hdir : cfg.loggingDirectories.head? = some dir) (severity : Severity) :
    ∃ name, Makes cfg severity name := by
  generalize ho : LogFileObject.new cfg severity none 0 (plainTm 0) = o
  have hselected : o.baseFilenameSelected = false := by rw [← ho]; rfl
  have hbase : ¬ (o.baseFilenameSelected = true ∧ o.baseFilename = []) := fun h => by cases hselected.symm.trans h.1
  obtain ⟨hmade, o', h₀, rest, hobject, hcreations, hbasename, hfile, hpath⟩ := prepare_new hdir ho
  obtain ⟨_, _, _, _, _, _, _, hframe⟩ := @write_frame cfg unlistedEnv 0 o plainProcess false [] hbase
  obtain ⟨h, h', hprepared, hwritten, hgrown⟩ := @write_file cfg unlistedEnv false 0 [] o plainProcess ⟨hbase, hmade⟩
  rw [hobject] at hframe hprepared
  obtain ⟨h₁, hopened, hgrown₀⟩ := writeHeader_grown cfg unlistedEnv hprepared
  cases hfile.symm.trans hopened
  obtain ⟨_, rfl⟩ := hgrown₀.trans hgrown
  obtain ⟨_, _, _, _, _, hheader⟩ := @writeHeader_frame cfg unlistedEnv o' (namingTime cfg 0)
  rw [hheader] at hframe
  refine ⟨strippedFilename cfg o ++ rest, unlistedEnv, o, plainProcess, false, 0, [], dir, _, hdir, ?_, hselected,
    ?_, ?_, hwritten, ?_⟩
  · rw [← ho]
    rfl
  · rw [hframe]
    dsimp only
    omega
  · rw [hframe]
    exact hbasename
  · dsimp only
    rw [hpath]
    exact List.append_assoc dir _ rest

/-- Whatever the program name, the host and the severity are, an object does not select its own files and none of the
others: where it selects its own files, it selects those of every other severity. -/
theorem not_selects_own {o : LogFileObject} (hsymlink : o.symlinkBasename = cfg.programName)
    (hmakes : Makes cfg o.severity name) :
    ¬ (Selects o name ∧ ∀ severity, severity ≠ o.severity → ∀ other, Makes cfg severity other → ¬ Selects o other) := by
  rintro ⟨hown, hothers⟩
  have hhost := (hmakes.selects_iff hsymlink).mp hown
  obtain ⟨severity, hne⟩ : ∃ severity, severity ≠ o.severity := by
    cases o.severity
    · exact ⟨.fatal, nofun⟩
    all_goals exact ⟨.info, nofun⟩
  obtain ⟨_, _, _, _, _, _, _, _, hdir, -⟩ := hmakes
  obtain ⟨other, hother⟩ := exists_makes hdir severity
  exact hothers severity hne other hother ((hother.selects_iff hsymlink).mpr hhost)

end

/-- A fresh object of the plain setting. -/
def freshObject : LogFileObject := .new plainConfig .info none 0 (plainTm 0)

theorem not_selects_own_fresh : ∃ name, Makes plainConfig .info name ∧
    ¬ (Selects freshObject name ∧ ∀ severity, severity ≠ .info → ∀ other, Makes plainConfig severity other →
      ¬ Selects freshObject other) := by
  obtain ⟨name, hmakes⟩ := @exists_makes plainConfig "/tmp/".toList rfl .info
  exact ⟨name, hmakes, @not_selects_own plainConfig name freshObject rfl hmakes⟩

/-- On the host `host` no file is selected. -/
theorem not_selects_made : ¬ ∀ (cfg : Config) (o : LogFileObject) (name : Text), cfg.hostname ≠ [] → cfg.userName ≠ [] →
    o.symlinkBasename = cfg.programName → Makes cfg o.severity name →
      Selects o name ∧ ∀ severity, severity ≠ o.severity → ∀ other, Makes cfg severity other →
        ¬ Selects o other := fun h => by
  obtain ⟨name, hmakes⟩ := @exists_makes plainConfig "/tmp/".toList rfl .info
  have hselects := (h plainConfig freshObject name (by decide) (by decide) rfl hmakes).1
  exact absurd ((hmakes.selects_iff rfl).mp hselects) (by decide)

end Glog.LogFile
