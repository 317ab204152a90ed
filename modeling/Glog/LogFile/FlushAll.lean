import Glog.LogFile.Loggers
import Glog.LogFile.Creation

/-! # Flushing the log files

Behind a fatal message every log file object is flushed by a `Write` of nothing with the time zero. It goes through the
whole of `Write`: under the policies of the day and of the hour the time zero belongs to another period. -/

namespace Glog.LogFile

section
variable {cfg : Config} {env : Env} {o o' : LogFileObject} {p : Process} {timestamp : Int}

/-! ### One object -/

def Handle.content (h : Handle) : Text := h.written.flatMap Chunk.text

/-- Nothing has been closed, opened or removed, and an open file is still open, with the same content. -/
structure Unharmed (o o' : LogFileObject) : Prop where
  closed : o'.closed = o.closed
  opens : o'.opens = o.opens
  retired : o'.retired = o.retired
  file : ∀ h, o.file = some h → ∃ h', o'.file = some h' ∧ h'.path = h.path ∧ h'.inode = h.inode ∧ h'.content = h.content

/-- A `Write` at this time has no file to make: the name is empty, or the file need not be rolled and is open, or it is not
    the time for another attempt. -/
def Quiet (cfg : Config) (env : Env) (timestamp : Int) (o : LogFileObject) (p : Process) : Prop :=
  (o.baseFilenameSelected = true ∧ o.baseFilename = []) ∨
    (checkNeedRollLogFiles cfg env timestamp o p).1 = false ∧
      (o.file.isSome ∨ o.rolloverAttempt + 1 ≠ kRolloverAttemptFrequency)

/-- As long as no file has been looked for, it is the time for an attempt. -/
def Due (o : LogFileObject) : Prop := o.initialized = false → o.rolloverAttempt + 1 = kRolloverAttemptFrequency

theorem checkNeedRollLogFiles_snd (h : (checkNeedRollLogFiles cfg env timestamp o p).1 = false) :
    (checkNeedRollLogFiles cfg env timestamp o p).2 = p := by
  unfold checkNeedRollLogFiles at *
  split at h
  · rfl
  · rfl
  all_goals
    rename_i hpolicy
    split at h
    · cases h
    · rename_i hsmall
      rw [if_neg hsmall]
      unfold pidHasChanged at *
      split at h
      · rename_i hpid
        rw [if_pos hpid]
      · cases h

theorem writeMessage_nil (force : Bool) : (writeMessage cfg env force [] o p).1.closed = o.closed ∧
    (writeMessage cfg env force [] o p).1.opens = o.opens ∧ (writeMessage cfg env force [] o p).1.retired = o.retired := by
  obtain ⟨_, _, _, _, _, _, _, hframe⟩ := @writeMessage_frame cfg env o p force []
  rw [hframe]
  exact ⟨rfl, rfl, rfl⟩

theorem appendChunk_nil {h h' : Handle} (hfile : o.file = some h)
    (happend : (appendChunk env (.message []) o).file = some h') :
    h'.path = h.path ∧ h'.inode = h.inode ∧ h'.content = h.content := by
  rw [appendChunk, hfile] at happend
  cases happend
  exact ⟨rfl, rfl, by simp [Handle.content, Chunk.take, Chunk.text]⟩

theorem writeMessage_unharmed (force : Bool) : Unharmed o (writeMessage cfg env force [] o p).1 := by
  obtain ⟨hclosed, hopens, hretired⟩ := @writeMessage_nil cfg env o p force
  refine ⟨hclosed, hopens, hretired, fun h hfile => ?_⟩
  obtain ⟨h', hfile'⟩ := Option.isSome_iff_exists.mp (@writeMessage_isSome cfg env force [] o p (by rw [hfile]; rfl))
  refine ⟨h', hfile', ?_⟩
  rcases writeMessage_cases cfg env force [] o p with ⟨-, heq⟩ | ⟨-, heq, -⟩
  · rw [heq, hfile] at hfile'
    cases hfile'
    exact ⟨rfl, rfl, rfl⟩
  · rw [heq] at hfile'
    exact appendChunk_nil hfile hfile'

theorem writeMessage_mainThreadPid (force : Bool) (message : Text) :
    (writeMessage cfg env force message o p).2.mainThreadPid = p.mainThreadPid := by
  unfold writeMessage
  dsimp only
  split
  · split <;> rfl
  · split
    · rfl
    · split <;> rfl

theorem unharmed_refl (o : LogFileObject) : Unharmed o o := ⟨rfl, rfl, rfl, fun h hfile => ⟨h, hfile, rfl, rfl, rfl⟩⟩

/-- A `Write` that has no file to make changes nothing about the files. -/
theorem write_unharmed {force : Bool} (hdue : Due o) (hquiet : Quiet cfg env timestamp o p) :
    Unharmed o (write cfg env force timestamp [] o p).1 ∧
      (write cfg env force timestamp [] o p).2.mainThreadPid = p.mainThreadPid := by
  by_cases hbase : o.baseFilenameSelected = true ∧ o.baseFilename = []
  · rw [write, if_pos hbase]
    exact ⟨unharmed_refl o, rfl⟩
  obtain ⟨hneed, hfile⟩ := hquiet.resolve_left hbase
  have hprocess := checkNeedRollLogFiles_snd hneed
  rw [write, if_neg hbase]
  cases hopen : o.file with
  | some h =>
    have hprepare : prepare cfg env timestamp o p = (true, o, p) := by
      cases prepare_prepared cfg env timestamp o p with
      | stays _ _ _ heq => rw [heq, hprocess]
      | reopens rolled hrolled hnone =>
        rw [hneed] at hrolled
        rw [hrolled] at hnone
        cases hopen.symm.trans hnone
      | makes rolled hrolled hnone =>
        rw [hneed] at hrolled
        rw [hrolled] at hnone
        cases hopen.symm.trans hnone
    rw [hprepare]
    exact ⟨writeMessage_unharmed force, writeMessage_mainThreadPid force []⟩
  | none =>
    have hattempt : o.rolloverAttempt + 1 ≠ kRolloverAttemptFrequency := by
      refine hfile.resolve_left fun hsome => ?_
      rw [hopen] at hsome
      cases hsome
    have hinit : ¬ o.initialized = false := fun h => hattempt (hdue h)
    have hskipped : reopenHistory cfg env timestamp (rollIfNeeded false o) = o :=
      if_neg fun h => hinit h.2.1
    have hprepare : prepare cfg env timestamp o p = (false, { o with rolloverAttempt := o.rolloverAttempt + 1 }, p) := by
      unfold prepare
      dsimp only
      rw [hneed, hprocess]
      rw [hskipped, if_pos (Option.isNone_iff_eq_none.mpr hopen), makeFile, if_pos hattempt]
    rw [hprepare]
    refine ⟨⟨rfl, rfl, rfl, fun h hfile => ?_⟩, rfl⟩
    cases hopen.symm.trans hfile

/-- A `Write` that makes a file opens one, where every file can be opened. -/
theorem write_opens {force : Bool} {message : Text} (hopen : AllOpen env) (hdest : HasDestination cfg o)
    (hfile : o.file = none) (hdue : (checkNeedRollLogFiles cfg env timestamp o p).1 = true ∨
      o.rolloverAttempt + 1 = kRolloverAttemptFrequency) :
    (write cfg env force timestamp message o p).1.opens ≠ o.opens := by
  have hbase : ¬ (o.baseFilenameSelected = true ∧ o.baseFilename = []) := by
    rintro ⟨hselected, hempty⟩
    rw [HasDestination, if_pos hselected] at hdest
    exact hdest hempty
  have hrolled : ∀ need, (need = true ∨ o.rolloverAttempt + 1 = kRolloverAttemptFrequency) →
      (rollIfNeeded need o).opens = o.opens ∧ HasDestination cfg (rollIfNeeded need o) ∧
        (rollIfNeeded need o).rolloverAttempt + 1 = kRolloverAttemptFrequency := by
    intro need hdue
    cases need with
    | true => exact ⟨rfl, hdest, rfl⟩
    | false => exact ⟨rfl, hdest, hdue.resolve_left Bool.false_ne_true⟩
  obtain ⟨hopens, hdest', hdue'⟩ := hrolled _ hdue
  have hlonger : ∀ paths path, o.opens ++ (paths ++ [path]) ≠ o.opens := fun paths path h => by
    have hlength := congrArg List.length h
    simp at hlength
  obtain ⟨_, _, _, _, _, _, _, hframe⟩ := @write_frame cfg env timestamp o p force message hbase
  rw [hframe]
  dsimp only
  cases prepare_prepared cfg env timestamp o p with
  | stays h hsome => cases hfile.symm.trans hsome
  | reopens rolled hrolled _ l rs path _ _ _ _ heq =>
    rw [heq, hrolled]
    dsimp only
    rw [hopens]
    exact hlonger [] path
  | makes rolled hrolled _ l rs paths _ _ _ heq =>
    rw [← hrolled] at hopens hdest' hdue'
    obtain ⟨f, o', p', hattempt, hmade⟩ := @makeFile_success cfg env hopen timestamp
      { rolled with fileList := l, retired := rolled.retired ++ rs, opens := rolled.opens ++ paths }
      (checkNeedRollLogFiles cfg env timestamp o p).2 hdest' hdue'
    obtain ⟨_, _, _, _, _, hheader⟩ := @writeHeader_frame cfg env o' (namingTime cfg timestamp)
    rw [heq, hmade, hheader]
    obtain ⟨l', rs', hpruned⟩ := pruned_eq cfg env timestamp
      { rolled with fileList := l, retired := rolled.retired ++ rs, opens := rolled.opens ++ paths }
    rw [hpruned] at hattempt
    cases hattempt with
    | success base paths' path name inode isNew _ =>
      dsimp only
      rw [hopens, List.append_assoc, ← List.append_assoc paths]
      exact hlonger _ path

/-- Where every file can be opened, any other `Write` closes or opens a file. -/
theorem quiet_of_unharmed {force : Bool} (hopen : AllOpen env) (hdirs : cfg.loggingDirectories ≠ [])
    (hsame : Unharmed o (write cfg env force timestamp [] o p).1) : Quiet cfg env timestamp o p := by
  by_cases hbase : o.baseFilenameSelected = true ∧ o.baseFilename = []
  · exact Or.inl hbase
  have hdest : HasDestination cfg o := by
    unfold HasDestination
    split
    · rename_i hselected
      exact fun hempty => hbase ⟨hselected, hempty⟩
    · exact hdirs
  refine Or.inr ?_
  cases hfile : o.file with
  | some h =>
    have hclosed := hsame.closed
    rw [write_closed cfg env hbase] at hclosed
    cases hneed : (checkNeedRollLogFiles cfg env timestamp o p).1 with
    | false => exact ⟨rfl, Or.inl rfl⟩
    | true =>
      rw [hneed] at hclosed
      change o.closed ++ o.file.toList = o.closed at hclosed
      have hlength := congrArg List.length hclosed
      rw [hfile] at hlength
      simp at hlength
  | none =>
    have hnot := mt (@write_opens cfg env o p timestamp force [] hopen hdest hfile) (fun h => h hsame.opens)
    rw [not_or, Bool.not_eq_true] at hnot
    exact ⟨hnot.1, Or.inr hnot.2⟩

/-- Once a file has been looked for, the object remembers it. -/
theorem write_due {force : Bool} {message : Text} (h : Due o) : Due (write cfg env force timestamp message o p).1 := by
  by_cases hbase : o.baseFilenameSelected = true ∧ o.baseFilename = []
  · rw [write, if_pos hbase]
    exact h
  obtain ⟨_, _, _, _, _, _, _, hframe⟩ := @write_frame cfg env timestamp o p force message hbase
  rw [hframe]
  change Due (prepare cfg env timestamp o p).2.1
  have hrolled : ∀ need, Due (rollIfNeeded need o) := by
    intro need
    cases need with
    | true => exact fun _ => rfl
    | false => exact h
  cases prepare_prepared cfg env timestamp o p with
  | stays _ _ _ heq =>
    rw [heq]
    exact h
  | reopens rolled _ _ _ _ _ _ _ _ _ heq =>
    rw [heq]
    intro hinit
    cases hinit
  | makes rolled heqRolled _ l rs paths _ _ _ heq =>
    have hdue : Due { rolled with fileList := l, retired := rolled.retired ++ rs, opens := rolled.opens ++ paths } := by
      rw [heqRolled]
      exact hrolled _
    rw [heq]
    generalize LogFileObject.mk .. = mid at hdue
    rcases makeFile_cases cfg env timestamp mid (checkNeedRollLogFiles cfg env timestamp o p).2
      with ⟨hnot, hmade⟩ | ⟨-, made, o', p', -, hattempt, hmade⟩
    · rw [hmade]
      exact fun hinit => absurd (hdue hinit) hnot
    · rw [hmade]
      obtain ⟨_, _, _, _, _, hheader⟩ := @writeHeader_frame cfg env o' (namingTime cfg timestamp)
      obtain ⟨l', rs', hpruned⟩ := pruned_eq cfg env timestamp mid
      rw [hpruned] at hattempt
      rw [hheader]
      cases hattempt with
      | failed base paths' _ =>
        intro hinit
        cases hinit
      | success base paths' path name inode isNew _ =>
        intro hinit
        cases hinit

theorem Due.of_eq (h : Due o) (hinit : o'.initialized = o.initialized)
    (hattempt : o'.rolloverAttempt = o.rolloverAttempt ∨ o'.rolloverAttempt + 1 = kRolloverAttemptFrequency) : Due o' := by
  intro hnew
  rcases hattempt with hattempt | hattempt
  · rw [hattempt]
    exact h (hinit ▸ hnew)
  · exact hattempt

theorem setBasename_due {basename : Text} (h : Due o) : Due (setBasename basename o) := by
  unfold setBasename
  dsimp only
  split
  · split
    · exact fun _ => rfl
    · exact h
  · exact h

theorem setExtension_due {ext : Text} (h : Due o) : Due (setExtension ext o) := by
  unfold setExtension
  split
  · dsimp only
    split
    · exact fun _ => rfl
    · exact h
  · exact h

theorem flush_due {now : Int} (h : Due o) : Due (flush cfg now o) := by
  unfold flush
  dsimp only
  split
  · exact h
  · exact h

end

/-! ### All objects -/

section
variable {cfg : Config} {s s' : Loggers} {i : Severity} {o : LogFileObject}

theorem object_setObject_self : (setObject i o s).object i = some o := if_pos rfl

theorem object_setObject_ne {j : Severity} (h : j ≠ i) : (setObject i o s).object j = s.object j := if_neg h

def AllDue (s : Loggers) : Prop := ∀ i o, s.object i = some o → Due o

theorem AllDue.setObject (h : AllDue s) (ho : Due o) : AllDue (setObject i o s) := by
  intro j o' hobject
  by_cases hj : j = i
  · subst hj
    cases object_setObject_self.symm.trans hobject
    exact ho
  · exact h j o' ((object_setObject_ne hj).symm.trans hobject)

theorem AllDue.logDestination (h : AllDue s) (env : Env) : Due (logDestination cfg env i s) := by
  unfold LogFile.logDestination
  cases hobject : s.object i with
  | none => exact fun _ => rfl
  | some o => exact h i o hobject

theorem stepAll_due {op : LoggerOp} (h : AllDue s) : AllDue (stepAll cfg s op) := by
  cases op with
  | write i env force timestamp message =>
    exact h.setObject (write_due (h.logDestination env))
  | setLogDestination i env basename => exact h.setObject (setBasename_due (h.logDestination env))
  | setExtension i env ext => exact h.setObject (setExtension_due (h.logDestination env))
  | setSymlink i env basename => exact h.setObject (h.logDestination env)
  | flush i env => exact h.setObject (flush_due (h.logDestination env))
  | restart p => exact fun i o hobject => nomatch hobject

/-- What the pass over the objects does to one of them. -/
def flushOne (cfg : Config) (env : Severity → Env) (s : Loggers) (i : Severity) : Loggers :=
  if (s.object i).isSome then writeTo cfg i (env i) true 0 [] s else s

theorem flushAll_eq (cfg : Config) (env : Severity → Env) (s : Loggers) :
    flushAll cfg env s = Severity.all.foldl (flushOne cfg env) s := rfl

variable {env : Severity → Env}

theorem flushOne_of_none (h : s.object i = none) : flushOne cfg env s i = s := by
  rw [flushOne, h]
  rfl

theorem flushOne_of_some (h : s.object i = some o) : flushOne cfg env s i =
    { setObject i (write cfg (env i) true 0 [] o s.process).1 s
      with process := (write cfg (env i) true 0 [] o s.process).2 } := by
  rw [flushOne, h, if_pos Option.isSome_some, writeTo, logDestination, h]
  rfl

theorem object_flushOne_ne {j : Severity} (h : j ≠ i) : (flushOne cfg env s i).object j = s.object j := by
  cases hobject : s.object i with
  | none => rw [flushOne_of_none hobject]
  | some o =>
    rw [flushOne_of_some hobject]
    exact object_setObject_ne h

theorem object_flushOne_self (h : s.object i = some o) :
    (flushOne cfg env s i).object i = some (write cfg (env i) true 0 [] o s.process).1 := by
  rw [flushOne_of_some h]
  exact object_setObject_self

theorem foldl_flushOne_object {j : Severity} (l : List Severity) : ∀ s, j ∉ l ∨ s.object j = none →
    (l.foldl (flushOne cfg env) s).object j = s.object j := by
  induction l with
  | nil => exact fun _ _ => rfl
  | cons i l ih =>
    intro s h
    have hfirst : (flushOne cfg env s i).object j = s.object j := by
      by_cases hj : j = i
      · subst hj
        rw [flushOne_of_none (h.resolve_left fun hnot => hnot List.mem_cons_self)]
      · exact object_flushOne_ne hj
    rw [List.foldl_cons, ih, hfirst]
    rw [hfirst]
    exact h.imp_left fun hnot hmem => hnot (List.mem_cons_of_mem i hmem)

theorem flushOne_due (h : AllDue s) : AllDue (flushOne cfg env s i) := by
  unfold flushOne
  split
  · exact h.setObject (write_due (h.logDestination (env i)))
  · exact h

theorem Quiet.congr {env : Env} {timestamp : Int} {p p' : Process} (h : Quiet cfg env timestamp o p)
    (hpid : p'.mainThreadPid = p.mainThreadPid) : Quiet cfg env timestamp o p' := by
  refine h.imp_right fun ⟨hneed, hfile⟩ => ⟨?_, hfile⟩
  rw [← hneed]
  unfold checkNeedRollLogFiles pidHasChanged
  rw [hpid]
  cases cfg.policy with
  | day => rfl
  | hour => rfl
  | size | other =>
    dsimp only
    split
    · rfl
    · split <;> rfl

/-- No object of the list has a file to make. -/
def AllQuiet (cfg : Config) (env : Severity → Env) (l : List Severity) (s : Loggers) : Prop :=
  ∀ i ∈ l, ∀ o, s.object i = some o → Quiet cfg (env i) 0 o s.process

/-- The files of the objects of the list are as they were. -/
def AllUnharmed (l : List Severity) (s s' : Loggers) : Prop :=
  ∀ i ∈ l, ∀ o, s.object i = some o → ∃ o', s'.object i = some o' ∧ Unharmed o o'

/-- A quiet object leaves the others as quiet as they are. -/
theorem AllQuiet.rest {l : List Severity} (hnodup : i ∉ l) (hdue : AllDue s) (h : AllQuiet cfg env (i :: l) s) :
    AllQuiet cfg env l (flushOne cfg env s i) := by
  intro j hj o hobject
  have hne : j ≠ i := fun heq => hnodup (heq ▸ hj)
  rw [object_flushOne_ne hne] at hobject
  have hquiet := h j (List.mem_cons_of_mem i hj) o hobject
  cases hfirst : s.object i with
  | none =>
    rw [flushOne_of_none hfirst]
    exact hquiet
  | some o₁ =>
    rw [flushOne_of_some hfirst]
    exact hquiet.congr (write_unharmed (hdue i o₁ hfirst) (h i List.mem_cons_self o₁ hfirst)).2

theorem foldl_flushOne_unharmed (l : List Severity) (hnodup : l.Nodup) : ∀ s, AllDue s → AllQuiet cfg env l s →
    AllUnharmed l s (l.foldl (flushOne cfg env) s) := by
  induction l with
  | nil => exact fun s _ _ i hi => nomatch hi
  | cons i l ih =>
    intro s hdue hquiet j hj o hobject
    obtain ⟨hi, hl⟩ := List.nodup_cons.mp hnodup
    rw [List.foldl_cons]
    by_cases hji : j = i
    · subst hji
      rw [foldl_flushOne_object l _ (Or.inl hi)]
      exact ⟨_, object_flushOne_self hobject, (write_unharmed (hdue j o hobject) (hquiet j hj o hobject)).1⟩
    · rw [← object_flushOne_ne hji] at hobject
      exact ih hl _ (flushOne_due hdue) (hquiet.rest hi hdue) j ((List.mem_cons.mp hj).resolve_left hji) o hobject

theorem foldl_flushOne_quiet (hopen : ∀ i, AllOpen (env i)) (hdirs : cfg.loggingDirectories ≠ []) (l : List Severity)
    (hnodup : l.Nodup) : ∀ s, AllDue s → AllUnharmed l s (l.foldl (flushOne cfg env) s) → AllQuiet cfg env l s := by
  induction l with
  | nil => exact fun s _ _ i hi => nomatch hi
  | cons i l ih =>
    intro s hdue hsame
    obtain ⟨hi, hl⟩ := List.nodup_cons.mp hnodup
    have hne : ∀ j ∈ l, j ≠ i := fun j hj heq => hi (heq ▸ hj)
    have hfirst : ∀ o, s.object i = some o → Quiet cfg (env i) 0 o s.process := by
      intro o hobject
      obtain ⟨o', hobject', hsame'⟩ := hsame i List.mem_cons_self o hobject
      rw [List.foldl_cons, foldl_flushOne_object l _ (Or.inl hi), object_flushOne_self hobject] at hobject'
      cases hobject'
      exact quiet_of_unharmed (hopen i) hdirs hsame'
    have hrest : AllQuiet cfg env l (flushOne cfg env s i) := by
      refine ih hl _ (flushOne_due hdue) fun j hj o hobject => ?_
      rw [object_flushOne_ne (hne j hj)] at hobject
      exact hsame j (List.mem_cons_of_mem i hj) o hobject
    intro j hj o hobject
    rcases List.mem_cons.mp hj with rfl | hj
    · exact hfirst o hobject
    · have hquiet := hrest j hj o (by rw [object_flushOne_ne (hne j hj)]; exact hobject)
      cases hobject' : s.object i with
      | none =>
        rw [flushOne_of_none hobject'] at hquiet
        exact hquiet
      | some o₁ =>
        rw [flushOne_of_some hobject'] at hquiet
        exact hquiet.congr (write_unharmed (hdue i o₁ hobject') (hfirst o₁ hobject')).2.symm

/-- The pass leaves all files alone: those of the objects that there are, and it makes no object. -/
structure Undisturbed (s s' : Loggers) : Prop where
  unharmed : AllUnharmed Severity.all s s'
  none : ∀ i, s.object i = none → s'.object i = none

/-- In every reachable state the pass leaves the files alone where no object has a file to make, and only there if every
    file can be opened. -/
theorem flushAll_undisturbed {p : Process} (hrun : Run.Reaches (stepAll cfg) (fun _ _ => True) (.start p) s) :
    (AllQuiet cfg env Severity.all s → Undisturbed s (flushAll cfg env s)) ∧
      ((∀ i, AllOpen (env i)) → cfg.loggingDirectories ≠ [] → Undisturbed s (flushAll cfg env s) →
        AllQuiet cfg env Severity.all s) := by
  have hdue : AllDue s := hrun.invariant (fun i o hobject => nomatch hobject) fun t op ht _ => stepAll_due ht
  have hnodup : Severity.all.Nodup := by decide
  refine ⟨fun hquiet => ⟨foldl_flushOne_unharmed _ hnodup s hdue hquiet, fun i hnone => ?_⟩, fun hopen hdirs hsame => ?_⟩
  · rw [flushAll_eq, foldl_flushOne_object _ _ (Or.inr hnone), hnone]
  · exact foldl_flushOne_quiet hopen hdirs _ hnodup s hdue hsame.unharmed

end

/-- A message of the second day, under a policy. -/
def dayTwo (cfg : Config) : Loggers := stepAll cfg (.start plainProcess) (.write .info plainEnv false 1 ['x'])

theorem reaches_dayTwo (cfg : Config) : Run.Reaches (stepAll cfg) (fun _ _ => True) (.start plainProcess) (dayTwo cfg) :=
  Run.Reaches.start.next _ trivial

/-- Under the size policy the file is small, and stays. -/
theorem flushAll_undisturbed_size :
    Undisturbed (dayTwo historyConfig) (flushAll historyConfig (fun _ => plainEnv) (dayTwo historyConfig)) := by
  refine (flushAll_undisturbed (reaches_dayTwo historyConfig)).1 fun i _ o hobject => ?_
  cases i with
  | info =>
    cases hobject
    exact Or.inr ⟨by decide, Or.inl rfl⟩
  | warning | error | fatal => cases hobject

/-- Under the policy of the day the file is closed, and another one is made. -/
theorem not_flushAll_undisturbed : ¬ ∀ (cfg : Config) (env : Severity → Env) (p : Process) (s : Loggers),
    Run.Reaches (stepAll cfg) (fun _ _ => True) (.start p) s → Undisturbed s (flushAll cfg env s) := fun h => by
  obtain ⟨o', hobject, hsame⟩ :=
    (h plainConfig (fun _ => plainEnv) plainProcess _ (reaches_dayTwo plainConfig)).unharmed .info
    (Severity.mem_all .info) _ rfl
  have hclosed := congrArg (Option.map LogFileObject.closed) hobject
  rw [Option.map_some, hsame.closed] at hclosed
  exact absurd hclosed (by decide)

end Glog.LogFile
