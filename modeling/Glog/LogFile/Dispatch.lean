import Glog.LogFile.Destination
import Glog.LogFile.Loggers

/-! # The messages in the files

Where every file can be opened and no disk is full, each `Write` puts its message into the files of its logger,
whatever it rolls, reopens or creates. The files of a severity are then a filter of the messages that have been
dispatched. -/

namespace Glog.LogFile

/-- What a message adds; a header is left out. -/
def Chunk.messageText : Chunk → Text
  | .header _ => []
  | .message text => text

def Handle.messageText (h : Handle) : Text := h.written.flatMap Chunk.messageText

/-- What has been written to the files, in the order in which they were opened. -/
def LogFileObject.messageText (o : LogFileObject) : Text := o.files.flatMap Handle.messageText

/-! ### One object -/

section
variable {cfg : Config} {env : Env} {timestamp : Int} {o o' : LogFileObject} {p : Process}

/-- There is a destination, and the next attempt to make a file is due. -/
structure CanWrite (cfg : Config) (o : LogFileObject) : Prop where
  destination : HasDestination cfg o
  due : o.file = none → o.rolloverAttempt + 1 = kRolloverAttemptFrequency

/-- A file is open, and the destination is kept. -/
structure Opened (cfg : Config) (o : LogFileObject) : Prop where
  destination : HasDestination cfg o
  file : o.file.isSome

theorem Opened.canWrite (h : Opened cfg o) : CanWrite cfg o where
  destination := h.destination
  due hnone := by
    have hfile := h.file
    rw [hnone] at hfile
    cases hfile

theorem HasDestination.of_directed {P : Text → Prop} (h : HasDestination cfg o) (hdirected : Directed P o o') :
    HasDestination cfg o' := by
  unfold HasDestination at *
  rw [hdirected.selected]
  cases hselected : o.baseFilenameSelected with
  | true =>
    rw [hselected] at h
    rw [if_pos rfl, hdirected.base hselected]
    exact h
  | false =>
    rw [hselected] at h
    exact h

theorem messageText_of_files (h : o'.files = o.files) : o'.messageText = o.messageText := by
  rw [LogFileObject.messageText, h, LogFileObject.messageText]

theorem messageText_opened {h : Handle} (hnone : o.file = none) (hclosed : o'.closed = o.closed) (hfile : o'.file = some h)
    (hwritten : h.written = []) : o'.messageText = o.messageText := by
  have hempty : h.messageText = [] := by
    rw [Handle.messageText, hwritten]
    rfl
  simp [LogFileObject.messageText, LogFileObject.files, hnone, hclosed, hfile, hempty]

theorem appendChunk_messageText {c : Chunk} (hfull : env.diskFull = false) (hfile : o.file.isSome) :
    (appendChunk env c o).messageText = o.messageText ++ c.messageText := by
  obtain ⟨h, hfile⟩ := Option.isSome_iff_exists.mp hfile
  simp [LogFileObject.messageText, LogFileObject.files, appendChunk, env.take_taken hfull, hfile, Handle.messageText]

theorem countBytes_messageText (length : Nat) : (countBytes length o).messageText = o.messageText := rfl

theorem writeHeader_messageText (tm : Tm) (hfull : env.diskFull = false) (hfile : o.file.isSome) :
    (writeHeader cfg env tm o).messageText = o.messageText := by
  unfold writeHeader
  split
  · generalize fileHeader cfg env o.startTime tm = header
    rw [countBytes_messageText, appendChunk_messageText hfull hfile]
    exact List.append_nil _
  · rfl

theorem rollIfNeeded_messageText (need : Bool) : (rollIfNeeded need o).messageText = o.messageText := by
  cases need with
  | true => exact messageText_of_files (files_closeFile o)
  | false => rfl

/-- A file is made, and it holds no message yet. -/
theorem makeFile_messageText (timestamp : Int) (p : Process) (hopen : AllOpen env) (hfull : env.diskFull = false)
    (hcan : CanWrite cfg o) (hnone : o.file = none) :
    (makeFile cfg env timestamp o p).1 = true ∧ (makeFile cfg env timestamp o p).2.1.messageText = o.messageText := by
  obtain ⟨f, o', p', hattempt, heq⟩ := makeFile_success cfg env hopen timestamp p hcan.destination (hcan.due hnone)
  rw [heq]
  refine ⟨rfl, ?_⟩
  obtain ⟨l, rs, hpruned⟩ := pruned_eq cfg env timestamp o
  rw [hpruned] at hattempt
  cases hattempt with
  | success base paths path name inode isNew _ =>
    refine (writeHeader_messageText _ hfull rfl).trans ?_
    exact messageText_opened (h := ⟨path, inode, isNew, env.pid, timestamp, []⟩) hnone (by rfl) (by rfl) (by rfl)

theorem prepare_messageText (hopen : AllOpen env) (hfull : env.diskFull = false) (hcan : CanWrite cfg o) :
    (prepare cfg env timestamp o p).1 = true ∧ (prepare cfg env timestamp o p).2.1.messageText = o.messageText := by
  cases prepare_prepared cfg env timestamp o p with
  | stays h hfile hneed heq =>
    rw [heq]
    exact ⟨rfl, rfl⟩
  | reopens rolled heqRolled hfile l rs path inode isNew hlist hopens heq =>
    rw [heq]
    refine ⟨rfl, ?_⟩
    rw [← rollIfNeeded_messageText (o := o), ← heqRolled]
    exact messageText_opened (h := ⟨path, inode, isNew, env.pid, timestamp, []⟩) hfile (by rfl) (by rfl) (by rfl)
  | makes rolled heqRolled hfile l rs paths hlist hreopened hopens heq =>
    rw [heq]
    have hrolled : CanWrite cfg rolled := by
      rw [heqRolled]
      cases (checkNeedRollLogFiles cfg env timestamp o p).1 with
      | true => exact ⟨hcan.destination, fun _ => rfl⟩
      | false => exact hcan
    have hmade := makeFile_messageText timestamp (checkNeedRollLogFiles cfg env timestamp o p).2
      (o := { rolled with fileList := l, retired := rolled.retired ++ rs, opens := rolled.opens ++ paths })
      hopen hfull ⟨hrolled.destination, hrolled.due⟩ hfile
    refine ⟨hmade.1, hmade.2.trans ?_⟩
    rw [← rollIfNeeded_messageText (o := o), ← heqRolled]
    rfl

/-! ### Write -/

theorem writeMessage_messageText {force : Bool} {message : Text} (hfull : env.diskFull = false)
    (hstop : p.stopWriting = false)
    (hfile : o.file.isSome) : (writeMessage cfg env force message o p).1.messageText = o.messageText ++ message ∧
      (writeMessage cfg env force message o p).2.stopWriting = false := by
  have hfiles : (writeMessage cfg env force message o p).1.files = (appendChunk env (.message message) o).files := by
    rcases writeMessage_cases cfg env force message o p with ⟨hset, -⟩ | ⟨-, hfile, hclosed, -⟩
    · rw [hstop] at hset
      cases hset
    · rw [LogFileObject.files, hfile, hclosed]
      rfl
  refine ⟨(messageText_of_files hfiles).trans (appendChunk_messageText hfull hfile), ?_⟩
  unfold writeMessage
  rw [hstop, if_neg Bool.false_ne_true]
  dsimp only
  rw [if_neg (by rw [hfull]; exact fun h => Bool.false_ne_true h.2)]
  split <;> exact hstop

/-- A `Write` adds its message to the files. -/
theorem write_messageText {force : Bool} {message : Text} (hopen : AllOpen env) (hfull : env.diskFull = false)
    (hstop : p.stopWriting = false) (hcan : CanWrite cfg o) :
    (write cfg env force timestamp message o p).1.messageText = o.messageText ++ message ∧
      CanWrite cfg (write cfg env force timestamp message o p).1 ∧
      (write cfg env force timestamp message o p).2.stopWriting = false := by
  have hbase : ¬ (o.baseFilenameSelected = true ∧ o.baseFilename = []) := by
    rintro ⟨hselected, hempty⟩
    have hdest := hcan.destination
    rw [HasDestination, if_pos hselected] at hdest
    exact hdest hempty
  obtain ⟨hprepared, htext⟩ : (prepare cfg env timestamp o p).1 = true ∧
      (prepare cfg env timestamp o p).2.1.messageText = o.messageText := prepare_messageText hopen hfull hcan
  have hfile : (prepare cfg env timestamp o p).2.1.file.isSome := prepare_isSome cfg env hprepared
  have hstopped : (prepare cfg env timestamp o p).2.2.stopWriting = false := prepare_stopWriting.trans hstop
  have hdirected : Directed (fun _ => True) o (write cfg env force timestamp message o p).1 :=
    write_directed (fun _ _ => trivial) fun _ _ _ _ _ => Or.inl trivial
  have hwrite : write cfg env force timestamp message o p =
      writeMessage cfg env force message (prepare cfg env timestamp o p).2.1 (prepare cfg env timestamp o p).2.2 := by
    rw [write, if_neg hbase]
    dsimp only
    rw [if_pos hprepared]
  have hmessage : (write cfg env force timestamp message o p).1.messageText =
      (prepare cfg env timestamp o p).2.1.messageText ++ message ∧
        (write cfg env force timestamp message o p).2.stopWriting = false := by
    rw [hwrite]
    exact writeMessage_messageText hfull hstopped hfile
  have hopened : Opened cfg (write cfg env force timestamp message o p).1 :=
    ⟨hcan.destination.of_directed hdirected, by rw [hwrite]; exact writeMessage_isSome cfg env hfile⟩
  exact ⟨by rw [hmessage.1, htext], hopened.canWrite, hmessage.2⟩

end

/-! ### All loggers -/

/-- The flags that decide where a message goes, as they are when it is dispatched. -/
structure OutputFlags where
  logtostderr : Bool
  logtostdout : Bool
  initialized : Bool
  exitOnDfatal : Bool

/-- A message, with what the system answers to the logger of each severity when it is written and when it is
    flushed. -/
structure Message where
  severity : Severity
  timestamp : Int
  text : Text
  flags : OutputFlags
  env : Severity → Env
  flushEnv : Severity → Env

section
variable (cfg : Config)

/-- `LogMessage::SendToLog`, as far as the files go. -/
def sendToLog (s : Loggers) (m : Message) : Loggers :=
  let toFiles := !m.flags.logtostderr && !m.flags.logtostdout
  let s := if toFiles && m.flags.initialized then logToAllLogfiles cfg m.severity m.timestamp m.text m.env s else s
  -- If we log a FATAL message, flush all the log destinations.
  if m.severity = .fatal ∧ m.flags.exitOnDfatal = true ∧ toFiles = true then flushAll cfg m.flushEnv s else s

/-- What has been written to the files of a severity. -/
def fileText (i : Severity) (s : Loggers) : Text := (s.object i).elim [] LogFileObject.messageText

/-- Every logger has a destination. -/
def AllHaveDestination (s : Loggers) : Prop := ∀ i env, HasDestination cfg (logDestination cfg env i s)

/-- Every logger can write. -/
structure AllCanWrite (s : Loggers) : Prop where
  stop : s.process.stopWriting = false
  can : ∀ i env, CanWrite cfg (logDestination cfg env i s)

end

/-- Logging is initialized and goes to the files, and all file operations succeed. -/
structure Message.Succeeds (m : Message) : Prop where
  logtostderr : m.flags.logtostderr = false
  logtostdout : m.flags.logtostdout = false
  initialized : m.flags.initialized = true
  env : ∀ i, AllOpen (m.env i) ∧ (m.env i).diskFull = false
  flushEnv : ∀ i, AllOpen (m.flushEnv i) ∧ (m.flushEnv i).diskFull = false

section
variable {cfg : Config} {s : Loggers}

theorem logDestination_messageText (env : Env) (i : Severity) :
    (logDestination cfg env i s).messageText = fileText i s := by
  unfold logDestination fileText
  cases s.object i <;> rfl

theorem writeTo_messageText {i : Severity} {env : Env} {force : Bool} {timestamp : Int} {message : Text}
    (henv : AllOpen env ∧ env.diskFull = false) (h : AllCanWrite cfg s) :
    AllCanWrite cfg (writeTo cfg i env force timestamp message s) ∧
      ∀ j, fileText j (writeTo cfg i env force timestamp message s) = fileText j s ++ if j = i then message else [] := by
  obtain ⟨htext, hcan, hstop⟩ :
      (write cfg env force timestamp message (logDestination cfg env i s) s.process).1.messageText =
      (logDestination cfg env i s).messageText ++ message ∧
        CanWrite cfg (write cfg env force timestamp message (logDestination cfg env i s) s.process).1 ∧
        (write cfg env force timestamp message (logDestination cfg env i s) s.process).2.stopWriting = false :=
    write_messageText henv.1 henv.2 h.stop (h.can i env)
  rw [logDestination_messageText] at htext
  unfold writeTo
  generalize write cfg env force timestamp message (logDestination cfg env i s) s.process = r at htext hcan hstop
  have hobject : ∀ j, ({ setObject i r.1 s with process := r.2 } : Loggers).object j = if j = i then some r.1
      else s.object j :=
    fun _ => rfl
  refine ⟨⟨hstop, fun j env' => ?_⟩, fun j => ?_⟩
  · unfold logDestination
    rw [hobject]
    split
    · exact hcan
    · exact h.can j env'
  · unfold fileText
    rw [hobject]
    by_cases hj : j = i
    · subst hj
      rw [if_pos rfl, if_pos rfl]
      exact htext
    · rw [if_neg hj, if_neg hj, List.append_nil]

/-- The same message to several loggers, one after the other. -/
theorem foldl_writeTo_messageText {env : Severity → Env} {force : Severity → Bool} {timestamp : Int} {message : Text}
    (henv : ∀ i, AllOpen (env i) ∧ (env i).diskFull = false) {l : List Severity} (hnodup : l.Nodup) :
    ∀ {s}, AllCanWrite cfg s →
      AllCanWrite cfg (l.foldl (fun s i => writeTo cfg i (env i) (force i) timestamp message s) s) ∧
        ∀ j, fileText j (l.foldl (fun s i => writeTo cfg i (env i) (force i) timestamp message s) s) =
          fileText j s ++ if j ∈ l then message else [] := by
  induction l with
  | nil =>
    intro s h
    refine ⟨h, fun j => ?_⟩
    rw [if_neg List.not_mem_nil, List.append_nil]
    rfl
  | cons i l ih =>
    intro s h
    obtain ⟨hi, hl⟩ := List.nodup_cons.mp hnodup
    obtain ⟨hfirst, htext⟩ : AllCanWrite cfg (writeTo cfg i (env i) (force i) timestamp message s) ∧
        ∀ j, fileText j (writeTo cfg i (env i) (force i) timestamp message s) = fileText j s ++
          if j = i then message else [] :=
      writeTo_messageText (henv i) h
    obtain ⟨hall, hrest⟩ := ih hl hfirst
    refine ⟨hall, fun j => (hrest j).trans ?_⟩
    rw [htext, List.append_assoc]
    congr 1
    by_cases hj : j = i
    · subst hj
      rw [if_pos rfl, if_neg hi, if_pos List.mem_cons_self, List.append_nil]
    · rw [if_neg hj, List.nil_append]
      simp only [List.mem_cons, hj, false_or]

theorem flushAll_messageText {env : Severity → Env} (henv : ∀ i, AllOpen (env i) ∧ (env i).diskFull = false)
    (h : AllCanWrite cfg s) : AllCanWrite cfg (flushAll cfg env s) ∧ ∀ j,
      fileText j (flushAll cfg env s) = fileText j s := by
  have hfold : ∀ (l : List Severity) s, AllCanWrite cfg s →
      AllCanWrite cfg (l.foldl (fun s i => if (s.object i).isSome then writeTo cfg i (env i) true 0 [] s else s) s) ∧
        ∀ j, fileText j (l.foldl (fun s i => if (s.object i).isSome then writeTo cfg i (env i) true 0 [] s else s) s) =
          fileText j s := by
    intro l
    induction l with
    | nil => exact fun s h => ⟨h, fun _ => rfl⟩
    | cons i l ih =>
      intro s h
      rw [List.foldl_cons]
      split
      · obtain ⟨hfirst, htext⟩ : AllCanWrite cfg (writeTo cfg i (env i) true 0 [] s) ∧
            ∀ j, fileText j (writeTo cfg i (env i) true 0 [] s) = fileText j s ++ if j = i then [] else [] :=
          writeTo_messageText (henv i) h
        obtain ⟨hall, hrest⟩ := ih _ hfirst
        refine ⟨hall, fun j => (hrest j).trans ?_⟩
        rw [htext, ite_self, List.append_nil]
      · exact ih s h
  exact hfold Severity.all s h

theorem Severity.mem_andLower {i j : Severity} : j ∈ i.andLower ↔ j.toInt ≤ i.toInt := by
  cases i <;> cases j <;> decide

theorem Severity.nodup_andLower (i : Severity) : i.andLower.Nodup := by
  cases i <;> decide

/-- A message goes to the files of its severity and of those below. -/
theorem sendToLog_messageText {m : Message} (hsucceeds : m.Succeeds) (h : AllCanWrite cfg s) :
    AllCanWrite cfg (sendToLog cfg s m) ∧
      ∀ j, fileText j (sendToLog cfg s m) = fileText j s ++ if j.toInt ≤ m.severity.toInt then m.text else [] := by
  obtain ⟨hall, htext⟩ : AllCanWrite cfg (logToAllLogfiles cfg m.severity m.timestamp m.text m.env s) ∧
      ∀ j, fileText j (logToAllLogfiles cfg m.severity m.timestamp m.text m.env s) =
        fileText j s ++ if j ∈ m.severity.andLower then m.text else [] :=
    foldl_writeTo_messageText hsucceeds.env m.severity.nodup_andLower h
  simp only [Severity.mem_andLower] at htext
  unfold sendToLog
  simp only [hsucceeds.logtostderr, hsucceeds.logtostdout, hsucceeds.initialized, Bool.not_false, Bool.and_self, if_true]
  split
  · obtain ⟨hflushed, hsame⟩ := flushAll_messageText hsucceeds.flushEnv hall
    exact ⟨hflushed, fun j => (hsame j).trans (htext j)⟩
  · exact ⟨hall, htext⟩

theorem foldl_sendToLog_messageText (ms : List Message) : ∀ {s}, AllCanWrite cfg s → (∀ m ∈ ms, m.Succeeds) → ∀ i,
    fileText i (ms.foldl (sendToLog cfg) s) =
      fileText i s ++ (ms.filter fun m => i.toInt ≤ m.severity.toInt).flatMap Message.text := by
  induction ms with
  | nil =>
    intro s _ _ i
    exact (List.append_nil _).symm
  | cons m ms ih =>
    intro s h hsucceeds i
    obtain ⟨hall, htext⟩ := sendToLog_messageText (hsucceeds m List.mem_cons_self) h
    rw [List.foldl_cons, ih hall (fun m' hm' => hsucceeds m' (List.mem_cons_of_mem m hm')) i, htext, List.append_assoc]
    congr 1
    by_cases hle : i.toInt ≤ m.severity.toInt
    · simp [hle]
    · simp [hle]

/-! ### Before the first message -/

/-- The logger has opened nothing yet. -/
structure Untouched (o : LogFileObject) : Prop where
  file : o.file = none
  closed : o.closed = []
  due : o.rolloverAttempt + 1 = kRolloverAttemptFrequency

/-- An operation that writes no message. -/
def LoggerOp.Configures : LoggerOp → Prop
  | .write .. | .restart _ => False
  | _ => True

/-- No logger has opened anything yet. -/
structure AllUntouched (p : Process) (s : Loggers) : Prop where
  process : s.process = p
  object : ∀ i o, s.object i = some o → Untouched o

theorem start_untouched (p : Process) : AllUntouched p (.start p) where
  process := rfl
  object _ o hobject := absurd hobject.symm (Option.some_ne_none o)

theorem AllUntouched.logDestination {p : Process} (h : AllUntouched p s) (i : Severity) (env : Env) :
    Untouched (logDestination cfg env i s) := by
  unfold LogFile.logDestination
  cases hobject : s.object i with
  | none => exact ⟨rfl, rfl, rfl⟩
  | some o => exact h.object i o hobject

theorem setBasename_untouched {basename : Text} {o : LogFileObject} (h : Untouched o) :
    Untouched (setBasename basename o) := by
  obtain ⟨hfile, hclosed, hdue⟩ := h
  unfold setBasename
  simp only [hfile, Option.isSome_none, Bool.false_eq_true, if_false]
  split
  · exact ⟨rfl, hclosed, hdue⟩
  · exact ⟨rfl, hclosed, hdue⟩

theorem setExtension_untouched {ext : Text} {o : LogFileObject} (h : Untouched o) : Untouched (setExtension ext o) := by
  obtain ⟨hfile, hclosed, hdue⟩ := h
  unfold setExtension
  simp only [hfile, Option.isSome_none, Bool.false_eq_true, if_false]
  split
  · exact ⟨rfl, hclosed, hdue⟩
  · exact ⟨hfile, hclosed, hdue⟩

theorem flush_untouched {now : Int} {o : LogFileObject} (h : Untouched o) : Untouched (flush cfg now o) := by
  obtain ⟨hfile, hclosed, hdue⟩ := h
  refine ⟨(flush_file cfg now o).trans hfile, (flush_closed cfg now o).trans hclosed, ?_⟩
  simp only [flush, hfile, Option.isSome_none, Bool.false_eq_true, if_false]
  exact hdue

theorem stepAll_untouched {op : LoggerOp} {p : Process} (h : AllUntouched p s) (hop : op.Configures) :
    AllUntouched p (stepAll cfg s op) := by
  have hset : ∀ i o, Untouched o → AllUntouched p (setObject i o s) := fun i o huntouched => by
    refine ⟨h.process, fun j o' hobject => ?_⟩
    by_cases hj : j = i
    · have hself : some o = some o' := (if_pos hj).symm.trans hobject
      cases hself
      exact huntouched
    · exact h.object j o' ((if_neg hj).symm.trans hobject)
  cases op with
  | write i env force timestamp message => exact hop.elim
  | setLogDestination i env basename => exact hset i _ (setBasename_untouched (h.logDestination i env))
  | setExtension i env ext => exact hset i _ (setExtension_untouched (h.logDestination i env))
  | setSymlink i env basename =>
    obtain ⟨hfile, hclosed, hdue⟩ : Untouched (logDestination cfg env i s) := h.logDestination i env
    exact hset i _ ⟨hfile, hclosed, hdue⟩
  | flush i env => exact hset i _ (flush_untouched (h.logDestination i env))
  | restart p => exact hop.elim

/-- From a start of the process, after the loggers have been configured, the files of a severity hold exactly
    the texts of the messages of that severity and above, in the order of their dispatch. -/
theorem fileText_eq_filter {p : Process} (hstop : p.stopWriting = false)
    (hstart : Run.Reaches (stepAll cfg) (fun _ op => op.Configures) (.start p) s) (hdest : AllHaveDestination cfg s)
    (ms : List Message) (hsucceeds : ∀ m ∈ ms, m.Succeeds) (i : Severity) :
    fileText i (ms.foldl (sendToLog cfg) s) = (ms.filter fun m => i.toInt ≤ m.severity.toInt).flatMap Message.text := by
  have huntouched : AllUntouched p s :=
    hstart.invariant (start_untouched p) fun t op ht hop => stepAll_untouched ht hop
  have hcan : AllCanWrite cfg s := by
    refine ⟨by rw [huntouched.process, hstop], fun j env => ⟨hdest j env, fun _ => ?_⟩⟩
    have hobject : Untouched (logDestination cfg env j s) := huntouched.logDestination j env
    exact hobject.due
  have hempty : fileText i s = [] := by
    have hobject := huntouched.object i
    unfold fileText
    cases hsome : s.object i with
    | none => rfl
    | some o =>
      obtain ⟨hfile, hclosed, -⟩ := hobject o hsome
      change o.files.flatMap Handle.messageText = []
      rw [LogFileObject.files, hfile, hclosed]
      rfl
  rw [foldl_sendToLog_messageText ms hcan hsucceeds, hempty, List.nil_append]

end

/-- A message in the plain setting. -/
def plainMessage (severity : Severity) (text : Text) : Message where
  severity := severity
  timestamp := 0
  text := text
  flags := ⟨false, false, true, true⟩
  env _ := plainEnv
  flushEnv _ := plainEnv

theorem plainMessage_succeeds (severity : Severity) (text : Text) : (plainMessage severity text).Succeeds where
  logtostderr := rfl
  logtostdout := rfl
  initialized := rfl
  env _ := ⟨fun _ _ => ⟨1, true, rfl⟩, rfl⟩
  flushEnv _ := ⟨fun _ _ => ⟨1, true, rfl⟩, rfl⟩

theorem fileText_eq_filter_fatal : fileText .error
    ([plainMessage .info ['a'], plainMessage .fatal ['b'], plainMessage .error ['c']].foldl (sendToLog plainConfig)
      (.start plainProcess)) = ['b', 'c'] := by
  have hdest : AllHaveDestination plainConfig (.start plainProcess) := fun _ _ => List.cons_ne_nil _ _
  have hsucceeds : ∀ m ∈ [plainMessage .info ['a'], plainMessage .fatal ['b'], plainMessage .error ['c']], m.Succeeds := by
    intro m hm
    rcases List.mem_cons.mp hm with rfl | hm
    · exact plainMessage_succeeds _ _
    · rcases List.mem_cons.mp hm with rfl | hm
      · exact plainMessage_succeeds _ _
      · rw [List.mem_singleton.mp hm]
        exact plainMessage_succeeds _ _
  rw [fileText_eq_filter rfl .start hdest _ hsucceeds]
  rfl

end Glog.LogFile
