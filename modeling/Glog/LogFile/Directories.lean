import Glog.LogFile.Object

/-! # The directories for log files

`GetLoggingDirectories` takes the directory that the flag names, or else those that the environment names, up to one that
exists. It keeps the list for later calls. -/

namespace Glog.LogFile.Directories

inductive StatResult
  | failed | directory | other
  deriving DecidableEq

/-- A directory that may be taken, `none` where its variable is not set, and what `stat` tells of it. -/
structure Candidate where
  path : Option Text
  stat : StatResult

structure Environment where
  testTmpdir : Candidate
  tmpdir : Candidate
  tmp : Candidate
  /-- What `stat` tells of `/tmp`. -/
  slashTmp : StatResult

/-- Directories, in order of preference. -/
def candidates (env : Environment) : List Candidate :=
  [env.testTmpdir, env.tmpdir, env.tmp, ⟨some "/tmp".toList, env.slashTmp⟩]

/-- `n - 1` of a `size_t`, which wraps around. -/
def sizePred (n : Nat) : Nat := if n = 0 then 18446744073709551615 else n - 1

/-- `s[i]`: the null character stands behind the last one, and nothing behind that. -/
def charAt (s : Text) (i : Nat) : Option Char := (s ++ ['\x00'])[i]?

/-- Makes sure that the path ends with a slash. -/
def withSlash (d : Text) : Option Text :=
  (charAt d (sizePred d.length)).map fun last => if last ≠ '/' then d ++ ['/'] else d

/-- The loop of `GetTempDirectories`; `none` where a string is read outside of its bounds. -/
def addCandidates : List Candidate → List Text → Option (List Text)
  | [], list => some list
  | c :: rest, list =>
    match c.path with
    | none => addCandidates rest list
    | some d =>
      match withSlash d with
      | none => none
      | some dstr =>
        -- We found a directory that exists: we're done.
        if c.stat = .directory then some (list ++ [dstr]) else addCandidates rest (list ++ [dstr])

def getTempDirectories (env : Environment) : Option (List Text) := addCandidates (candidates env) []

def possibleDirDelim : List Char := ['/']

/-- The answer of `GetLoggingDirectories`, which is also what it keeps; `cached` is what an earlier call has kept. -/
def getLoggingDirectories (env : Environment) (logDir : Text) (cached : Option (List Text)) : Option (List Text) :=
  match cached with
  | some list => some list
  | none =>
    if logDir ≠ [] then
      logDir.getLast?.map fun back => if back ∈ possibleDirDelim then [logDir] else [logDir ++ ['/']]
    else (getTempDirectories env).map fun list => list ++ ["./".toList]

/-! ### What the list is to be -/

/-- A list up to the first element of a kind, which is still in it. -/
def throughFirst {α : Type} (p : α → Bool) (l : List α) : List α := l.take (l.findIdx p + 1)

/-- The candidates that are set. -/
def setCandidates (cs : List Candidate) : List (Text × StatResult) :=
  cs.filterMap fun c => c.path.map fun d => (d, c.stat)

def isDirectory (c : Text × StatResult) : Bool := c.2 == .directory

/-- The candidates that are set, up to the first one that is an existing directory. -/
def tried (env : Environment) : List (Text × StatResult) := throughFirst isDirectory (setCandidates (candidates env))

/-- A path with a slash at its end. -/
def ended (d : Text) : Text := if d.getLast? = some '/' then d else d ++ ['/']

/-- A list of directories as it is to be. -/
structure Proper (env : Environment) (logDir : Text) (dirs : List Text) : Prop where
  nonempty : dirs ≠ []
  slashed : ∀ dir ∈ dirs, dir ≠ [] ∧ dir.getLast? = some '/'
  listed : logDir ≠ [] ∧ dirs = [ended logDir] ∨
    logDir = [] ∧ dirs = (tried env).map (fun c => ended c.1) ++ ["./".toList]

/-- A call that finds nothing kept reads inside of all strings, and gives a proper list, which every later call gives
too. -/
def ListsDirectories (env : Environment) (logDir : Text) : Prop :=
  ∃ dirs, getLoggingDirectories env logDir none = some dirs ∧ Proper env logDir dirs ∧
    ∀ env' logDir', getLoggingDirectories env' logDir' (some dirs) = some dirs

section
variable {α : Type} {p : α → Bool} {a : α} {l : List α} {cs : List Candidate} {list : List Text} {c : Candidate}
  {d dir logDir : Text} {dirs : List Text} {env : Environment}

@[simp] theorem throughFirst_nil : throughFirst p [] = [] := rfl

theorem throughFirst_cons_of_pos (h : p a = true) : throughFirst p (a :: l) = [a] := by
  simp [throughFirst, List.findIdx_cons, h]

theorem throughFirst_cons_of_neg (h : p a = false) : throughFirst p (a :: l) = a :: throughFirst p l := by
  simp [throughFirst, List.findIdx_cons, h]

theorem setCandidates_cons_of_unset (h : c.path = none) : setCandidates (c :: cs) = setCandidates cs := by
  simp [setCandidates, h]

theorem setCandidates_cons_of_set (h : c.path = some d) : setCandidates (c :: cs) = (d, c.stat) :: setCandidates cs := by
  simp [setCandidates, h]

theorem ended_ends (d : Text) : ended d ≠ [] ∧ (ended d).getLast? = some '/' := by
  unfold ended
  split
  · rename_i hslash
    refine ⟨?_, hslash⟩
    rintro rfl
    cases hslash
  · simp

/-! ### The loop -/

/-- The index of the last character of an empty string is far outside of it. -/
theorem withSlash_nil : withSlash [] = none := rfl

theorem withSlash_of_ne_nil (h : d ≠ []) : withSlash d = some (ended d) := by
  have hlength : d.length ≠ 0 := fun hzero => h (List.length_eq_zero_iff.mp hzero)
  have hlast : charAt d (sizePred d.length) = d.getLast? := by
    rw [sizePred, if_neg hlength, charAt, List.getElem?_append_left (by omega), List.getLast?_eq_getElem?]
  have hsome := List.getLast?_eq_some_getLast h
  rw [withSlash, hlast, hsome, Option.map_some, ended, hsome]
  by_cases hslash : d.getLast h = '/'
  · rw [if_neg (not_not_intro hslash), if_pos (congrArg some hslash)]
  · rw [if_pos hslash, if_neg fun heq => hslash (Option.some.inj heq)]

/-- One turn of the loop. -/
theorem addCandidates_cons_of_unset (h : c.path = none) : addCandidates (c :: cs) list = addCandidates cs list := by
  rw [addCandidates, h]

theorem addCandidates_cons_of_set (h : c.path = some d) (hne : d ≠ []) : addCandidates (c :: cs) list =
    if c.stat = .directory then some (list ++ [ended d]) else addCandidates cs (list ++ [ended d]) := by
  rw [addCandidates, h]
  dsimp only
  rw [withSlash_of_ne_nil hne]

theorem addCandidates_cons_of_empty (h : c.path = some []) : addCandidates (c :: cs) list = none := by
  rw [addCandidates, h]
  dsimp only
  rw [withSlash_nil]

/-- The loop goes through the candidates that are set, up to the first directory. -/
theorem addCandidates_of_nonempty (h : ∀ x ∈ throughFirst isDirectory (setCandidates cs), x.1 ≠ []) :
    addCandidates cs list = some (list ++ (throughFirst isDirectory (setCandidates cs)).map fun x => ended x.1) := by
  induction cs generalizing list with
  | nil => simp [addCandidates, setCandidates]
  | cons c cs ih =>
    cases hpath : c.path with
    | none =>
      rw [setCandidates_cons_of_unset hpath] at h ⊢
      rw [addCandidates_cons_of_unset hpath, ih h]
    | some d =>
      rw [setCandidates_cons_of_set hpath] at h ⊢
      by_cases hstat : c.stat = .directory
      · rw [throughFirst_cons_of_pos (by simp [isDirectory, hstat])] at h ⊢
        rw [addCandidates_cons_of_set hpath (h _ List.mem_cons_self), if_pos hstat, List.map_singleton]
      · rw [throughFirst_cons_of_neg (by simp [isDirectory, hstat])] at h ⊢
        have hrest := @ih (list ++ [ended d]) fun x hx => h x (List.mem_cons_of_mem _ hx)
        rw [addCandidates_cons_of_set hpath (h _ List.mem_cons_self), if_neg hstat, hrest, List.map_cons,
          List.append_assoc, List.singleton_append]

/-- A variable that is set to nothing is read outside of its bounds. -/
theorem addCandidates_of_empty (h : ∃ x ∈ throughFirst isDirectory (setCandidates cs), x.1 = []) :
    addCandidates cs list = none := by
  obtain ⟨x, hx, hempty⟩ := h
  induction cs generalizing list with
  | nil => cases hx
  | cons c cs ih =>
    cases hpath : c.path with
    | none =>
      rw [setCandidates_cons_of_unset hpath] at hx
      rw [addCandidates_cons_of_unset hpath, ih hx]
    | some d =>
      rw [setCandidates_cons_of_set hpath] at hx
      rcases eq_or_ne d [] with rfl | hne
      · exact addCandidates_cons_of_empty hpath
      · rw [addCandidates_cons_of_set hpath hne]
        by_cases hstat : c.stat = .directory
        · rw [throughFirst_cons_of_pos (by simp [isDirectory, hstat])] at hx
          obtain rfl := List.mem_singleton.mp hx
          exact absurd hempty hne
        · rw [throughFirst_cons_of_neg (by simp [isDirectory, hstat])] at hx
          rw [if_neg hstat]
          rcases List.mem_cons.mp hx with rfl | hx
          · exact absurd hempty hne
          · exact ih hx

/-! ### The list -/

theorem getLoggingDirectories_of_flag (h : logDir ≠ []) : getLoggingDirectories env logDir none = some [ended logDir] := by
  have hlast := List.getLast?_eq_some_getLast h
  unfold getLoggingDirectories ended
  dsimp only
  rw [if_pos h, hlast, Option.map_some]
  by_cases hslash : logDir.getLast h = '/'
  · simp [possibleDirDelim, hslash]
  · simp [possibleDirDelim, hslash]

theorem proper_of_flag (h : logDir ≠ []) : Proper env logDir [ended logDir] where
  nonempty := List.cons_ne_nil _ _
  slashed := by
    rintro dir hdir
    obtain rfl := List.mem_singleton.mp hdir
    exact ended_ends logDir
  listed := Or.inl ⟨h, rfl⟩

theorem proper_of_environment :
    Proper env [] ((tried env).map (fun c => ended c.1) ++ ["./".toList]) where
  nonempty := by simp
  slashed := by
    rintro dir hdir
    rcases List.mem_append.mp hdir with hdir | hdir
    · obtain ⟨c, -, rfl⟩ := List.mem_map.mp hdir
      exact ended_ends c.1
    · obtain rfl := List.mem_singleton.mp hdir
      decide
  listed := Or.inr ⟨rfl, rfl⟩

/-- The list that is given is as it should be. -/
theorem proper_of_getLoggingDirectories (h : getLoggingDirectories env logDir none = some dirs) :
    Proper env logDir dirs := by
  rcases eq_or_ne logDir [] with rfl | hflag
  · rw [getLoggingDirectories, if_neg (not_not_intro rfl), getTempDirectories] at h
    rcases Classical.em (∃ c ∈ tried env, c.1 = []) with hempty | hnone
    · rw [addCandidates_of_empty hempty] at h
      cases h
    · rw [addCandidates_of_nonempty fun c hc hempty => hnone ⟨c, hc, hempty⟩] at h
      cases h
      exact proper_of_environment
  · rw [getLoggingDirectories_of_flag hflag] at h
    cases h
    exact proper_of_flag hflag

/-- The list is as it should be exactly if a variable that is set to the empty string is not tried. -/
theorem listsDirectories_iff (env : Environment) (logDir : Text) :
    ListsDirectories env logDir ↔ logDir ≠ [] ∨ ∀ c ∈ tried env, c.1 ≠ [] := by
  rcases eq_or_ne logDir [] with rfl | hflag
  · constructor
    · rintro ⟨dirs, hdirs, -, -⟩
      refine Or.inr fun c hc hempty => ?_
      rw [getLoggingDirectories, if_neg (not_not_intro rfl), getTempDirectories,
        addCandidates_of_empty ⟨c, hc, hempty⟩] at hdirs
      cases hdirs
    · rintro (hflag | hall)
      · exact absurd rfl hflag
      · refine ⟨_, ?_, proper_of_environment, fun _ _ => rfl⟩
        rw [getLoggingDirectories, if_neg (not_not_intro rfl), getTempDirectories, addCandidates_of_nonempty hall]
        rfl
  · exact ⟨fun _ => Or.inl hflag,
      fun _ => ⟨_, getLoggingDirectories_of_flag hflag, proper_of_flag hflag, fun _ _ => rfl⟩⟩

/-- `TMPDIR` is set to the empty string. -/
theorem not_listsDirectories :
    ¬ ListsDirectories ⟨⟨none, .failed⟩, ⟨some [], .failed⟩, ⟨none, .failed⟩, .directory⟩ [] := by
  rintro ⟨dirs, hdirs, -, -⟩
  cases hdirs

end

end Glog.LogFile.Directories
