import Glog.Message.Journal

/-! # What the receivers get of a message

The events of a flush are followed one by one. What a receiver gets at them is its share of the message, and the variables
change as the history of the process says. -/

namespace Glog.LogMessage
open LogFile Run

/-! ### What an event gives -/

/-- From one journal to the other the receiver is given `l`. -/
def Gives (j j' : Journal) (l : List Text) : Receiver → Prop
  | .logfile i => fileText i j'.loggers = fileText i j.loggers ++ l.flatten
  | r => j'.given r = j.given r ++ l

/-- What a receiver is given at an event. -/
def pieces (m : Entry) (d : LogMessageData) (r : Receiver) : Event → List Text
  | .send .email _ _ => if r = .stderr then [emailsDisabledText] else []
  | .send r' start length =>
    if r = r' then [rendered m.colorFlags m.info.severity r' (slice d.buf.text start length)] else []
  | .warning => if r = .stderr then [warningText] else []
  | .stackTrace => if r = .stderr then [stackTraceText] else []
  | _ => []

section
variable {cfg : Config} {m : Entry} {p : Reprint} {d : LogMessageData} {j j' j'' : Journal} {l l' : List Text}
    {r : Receiver}

theorem Gives.refl : Gives j j [] r := by
  cases r <;> simp [Gives]

theorem Gives.trans (h : Gives j j' l r) (h' : Gives j' j'' l' r) : Gives j j'' (l ++ l') r := by
  cases r <;> simp only [Gives] at h h' ⊢ <;> simp [h, h']

theorem gives_give {text : Text} (r' : Receiver) (hfile : ∀ i, r' ≠ .logfile i) :
    Gives j (j.give r' text) (if r = r' then [text] else []) r := by
  cases r with
  | logfile i =>
    rw [if_neg (hfile i).symm]
    exact (List.append_nil _).symm
  | _ =>
    simp only [Gives, Journal.give]
    split <;> simp

/-- A text to the log file of a severity. -/
theorem gives_writeTo {i : Severity} {env : Env} {force : Bool} {timestamp : Int} {text : Text}
    (henv : AllOpen env ∧ env.diskFull = false) (h : AllCanWrite cfg j.loggers) :
    AllCanWrite cfg (writeTo cfg i env force timestamp text j.loggers) ∧
      ∀ r, Gives j { j with loggers := writeTo cfg i env force timestamp text j.loggers }
        (if r = .logfile i then [text] else []) r := by
  obtain ⟨hcan, htext⟩ : AllCanWrite cfg (writeTo cfg i env force timestamp text j.loggers) ∧
      ∀ i', fileText i' (writeTo cfg i env force timestamp text j.loggers) = fileText i' j.loggers ++
        if i' = i then text else [] :=
    writeTo_messageText henv h
  refine ⟨hcan, fun r => ?_⟩
  cases r with
  | logfile i' =>
    simp only [Gives, htext, Receiver.logfile.injEq]
    split <;> simp
  | _ => simp [Gives]

/-- What the system answers to the loggers lets them write. -/
structure Entry.Answered (m : Entry) : Prop where
  env : ∀ i, AllOpen (m.env i) ∧ (m.env i).diskFull = false
  flushEnv : ∀ i, AllOpen (m.flushEnv i) ∧ (m.flushEnv i).diskFull = false

theorem deliver_gives (hanswered : m.Answered) (h : AllCanWrite cfg j.loggers) (e : Event) :
    AllCanWrite cfg (deliver cfg m d j e).loggers ∧ ∀ r, Gives j (deliver cfg m d j e) (pieces m d r e) r := by
  cases e with
  | send r' start length =>
    cases r' with
    | logfile i => exact gives_writeTo (hanswered.env i) h
    | email => exact ⟨h, fun r => gives_give .stderr nofun⟩
    | _ => exact ⟨h, fun r => gives_give _ nofun⟩
  | warning =>
    refine ⟨h, fun r => ?_⟩
    have hgives : Gives j (j.give .stderr warningText) (if r = .stderr then [warningText] else []) r :=
      gives_give .stderr nofun
    cases r <;> exact hgives
  | stackTrace => exact ⟨h, fun r => gives_give .stderr nofun⟩
  | flushLogfile i =>
    simp only [deliver, pieces]
    split
    · obtain ⟨hcan, htext⟩ : AllCanWrite cfg (writeTo cfg i (m.flushEnv i) true 0 [] j.loggers) ∧
          ∀ i', fileText i' (writeTo cfg i (m.flushEnv i) true 0 [] j.loggers) =
            fileText i' j.loggers ++ if i' = i then [] else [] :=
        writeTo_messageText (hanswered.flushEnv i) h
      refine ⟨hcan, fun r => ?_⟩
      cases r with
      | logfile i' => simp [Gives, htext]
      | _ => simp [Gives]
    · exact ⟨h, fun r => .refl⟩
  | storeFatal length =>
    refine ⟨h, fun r => ?_⟩
    cases r <;> simp [Gives, deliver, pieces]
  | access | lock | unlock | count | logToSinks | wait | waitOwn => exact ⟨h, fun r => .refl⟩

theorem foldl_deliver_gives (hanswered : m.Answered) (es : List Event) (h : AllCanWrite cfg j.loggers) :
    AllCanWrite cfg (es.foldl (deliver cfg m d) j).loggers ∧
      ∀ r, Gives j (es.foldl (deliver cfg m d) j) (es.flatMap (pieces m d r)) r := by
  induction es generalizing j with
  | nil => exact ⟨h, fun r => .refl⟩
  | cons e es ih =>
    obtain ⟨hcan, hgives⟩ := deliver_gives (d := d) hanswered h e
    obtain ⟨hall, hrest⟩ := ih hcan
    exact ⟨hall, fun r => (hgives r).trans (hrest r)⟩

end

/-! ### What a flush gives -/

/-- The data of a message while it is sent. -/
structure Sending (m : Entry) (flags : Flags) (d : LogMessageData) : Prop where
  severity : d.severity = m.info.severity
  sendMethod : d.sendMethod = m.sendMethod
  pointer : d.pointer = m.pointer
  line : slice d.buf.text 0 d.numCharsToLog = m.line
  body : slice d.buf.text d.numPrefixChars (bodyLength d) = m.body
  syslogText : slice d.buf.text d.numPrefixChars d.numCharsToSyslog = m.syslogText

theorem flatMap_ite {α β : Type} [DecidableEq α] {l : List α} (hnodup : l.Nodup) (a : α) (x : List β) :
    (l.flatMap fun b => if a = b then x else []) = if a ∈ l then x else [] := by
  induction l with
  | nil => rfl
  | cons b l ih =>
    obtain ⟨hb, hl⟩ := List.nodup_cons.mp hnodup
    rw [List.flatMap_cons, ih hl]
    by_cases hab : a = b
    · subst hab
      rw [if_pos rfl, if_neg hb, if_pos List.mem_cons_self, List.append_nil]
    · simp [hab]

section
variable {m : Entry} {flags : Flags} {d : LogMessageData} {r r' : Receiver} {start length : Nat}

theorem pieces_of_part (h : Sending m flags d) (hpart : Part d (.send r' start length)) (hmail : r' ≠ .email) :
    pieces m d r (.send r' start length) = if r = r' then [m.textFor r] else [] := by
  have hpieces : pieces m d r (.send r' start length) =
      if r = r' then [rendered m.colorFlags m.info.severity r' (slice d.buf.text start length)] else [] := by
    cases r' with
    | email => exact absurd rfl hmail
    | _ => rfl
  rw [hpieces]
  split
  · rename_i heq
    subst heq
    cases hpart with
    | line hr => rw [h.line, Entry.textFor, if_pos hr]
    | body hr =>
      have hline : r.takesLine = false := by cases r <;> first | rfl | cases hr
      rw [h.body, Entry.textFor, hline, if_neg Bool.false_ne_true, if_pos hr]
    | syslog => rw [h.syslogText]; rfl
  · rfl

theorem flatMap_sink (h : Sending m flags d) : (logToSinks flags d).flatMap (pieces m d r) =
    match r with
    | .sink i => if i < flags.sinks then [m.textFor (.sink i)] else []
    | _ => [] := by
  have hpiece : ∀ i, pieces m d r (.send (.sink i) d.numPrefixChars (bodyLength d)) =
      if r = .sink i then [m.textFor r] else [] :=
    fun i => pieces_of_part h (.body rfl) nofun
  have hcall : pieces m d r (.logToSinks d.numPrefixChars (bodyLength d)) = [] := rfl
  rw [logToSinks, List.flatMap_cons, hcall, List.nil_append, List.flatMap_map]
  simp only [hpiece]
  cases r with
  | sink i =>
    simp only [Receiver.sink.injEq]
    rw [flatMap_ite ((List.reverse_perm _).nodup_iff.mpr List.nodup_range)]
    simp
  | _ => simp

theorem flatMap_stderr (h : Sending m flags d) :
    (coloredWriteToStderr d).flatMap (pieces m d r) = if r = .stderr then [m.textFor r] else [] := by
  have hmail : Receiver.stderr ≠ .email := nofun
  rw [coloredWriteToStderr, List.flatMap_singleton, pieces_of_part h (.line rfl) hmail]

theorem flatMap_stdout (h : Sending m flags d) : (coloredWriteToStdout flags d).flatMap (pieces m d r) =
    if r = (if flags.stderrthreshold ≤ m.info.severity.toInt then .stderr else .stdout) then [m.textFor r] else [] := by
  rw [coloredWriteToStdout, List.flatMap_singleton, ← h.severity]
  refine (pieces_of_part h (.line ?_) ?_).trans ?_
  · split <;> rfl
  · split <;> exact nofun
  · rfl

theorem flatMap_logfile (h : Sending m flags d) :
    ((severitiesBelow d.severity).map fun severity => Event.send (.logfile severity) 0 d.numCharsToLog).flatMap
      (pieces m d r) =
      match r with
      | .logfile i => if i.toInt ≤ m.info.severity.toInt then [m.textFor (.logfile i)] else []
      | _ => [] := by
  have hpiece : ∀ i, pieces m d r (.send (.logfile i) 0 d.numCharsToLog) = if r = .logfile i then [m.textFor r] else [] :=
    fun i => pieces_of_part h (.line rfl) nofun
  rw [List.flatMap_map]
  simp only [hpiece]
  cases r with
  | logfile i =>
    simp only [Receiver.logfile.injEq]
    have hbelow : severitiesBelow d.severity = d.severity.andLower := by cases d.severity <;> rfl
    rw [hbelow, flatMap_ite (Severity.nodup_andLower _)]
    simp only [Severity.mem_andLower, h.severity]
  | _ => simp

theorem flatMap_email (h : Sending m flags d) : (maybeLogToEmail flags d).flatMap (pieces m d r) =
    if r = .stderr ∧ (flags.emailLoggingSeverity ≤ m.info.severity.toInt ∨ flags.logemaillevel ≤ m.info.severity.toInt) then
      [emailsDisabledText]
    else [] := by
  rw [maybeLogToEmail, ← h.severity]
  split
  · rename_i hlevel
    rw [List.flatMap_singleton, pieces]
    simp [hlevel]
  · rename_i hlevel
    simp [hlevel]

theorem flatMap_maybe (h : Sending m flags d) : (maybeLogToStderr flags d).flatMap (pieces m d r) =
    if r = .stderr ∧ (flags.stderrthreshold ≤ m.info.severity.toInt ∨ flags.alsologtostderr) then
      [m.textFor r] else [] := by
  rw [maybeLogToStderr, ← h.severity]
  split
  · rename_i hlevel
    rw [flatMap_stderr h]
    simp [hlevel]
  · rename_i hlevel
    simp [hlevel]

/-- What the receivers get from `SendToLog`, but for the part for fatal messages. -/
theorem flatMap_destinations (h : Sending m flags d) : (sendToDestinations flags d).flatMap (pieces m d r) =
    (if r = .stderr ∧ ¬ flags.alreadyWarnedBeforeInitgoogle ∧ ¬ flags.initialized then [warningText] else []) ++
      match r with
      | .stdout => if flags.logtostdout ∧ ¬ flags.stderrthreshold ≤ m.info.severity.toInt then [m.textFor .stdout] else []
      | .stderr =>
        (if (flags.logtostdout ∧ flags.stderrthreshold ≤ m.info.severity.toInt) ∨
            (¬ flags.logtostdout ∧ (flags.logtostderr ∨ ¬ flags.initialized ∨
              flags.stderrthreshold ≤ m.info.severity.toInt ∨ flags.alsologtostderr)) then
          [m.textFor .stderr]
        else []) ++
          if flags.initialized ∧ ¬ flags.logtostderr ∧ ¬ flags.logtostdout ∧
              (flags.emailLoggingSeverity ≤ m.info.severity.toInt ∨ flags.logemaillevel ≤ m.info.severity.toInt) then
            [emailsDisabledText]
          else []
      | .logfile i =>
        if flags.initialized ∧ ¬ flags.logtostderr ∧ ¬ flags.logtostdout ∧ i.toInt ≤ m.info.severity.toInt then
          [m.textFor (.logfile i)]
        else []
      | .sink i => if i < flags.sinks then [m.textFor (.sink i)] else []
      | _ => [] := by
  have hwarning :
      (if ¬ flags.alreadyWarnedBeforeInitgoogle ∧ ¬ flags.initialized then [Event.warning] else []).flatMap (pieces m d r) =
      if r = .stderr ∧ ¬ flags.alreadyWarnedBeforeInitgoogle ∧ ¬ flags.initialized then [warningText] else [] := by
    split
    · rename_i hearly
      simp [hearly, pieces]
    · rename_i hearly
      rw [List.flatMap_nil, if_neg fun h => hearly h.2]
  rw [sendToDestinations, List.flatMap_append, hwarning]
  congr 1
  by_cases hfiles : flags.logtostderr = false ∧ flags.logtostdout = false ∧ flags.initialized = true
  · obtain ⟨hstderr, hstdout, hinitialized⟩ := hfiles
    rw [if_neg (by simp [hstderr, hstdout, hinitialized])]
    rw [List.flatMap_append, List.flatMap_append, List.flatMap_append, flatMap_sink h, flatMap_email h, flatMap_maybe h,
      logToAllLogfiles, if_neg (by simp [hstdout]), if_neg (by simp [hstderr]), flatMap_logfile h]
    cases r <;> simp [hstderr, hstdout, hinitialized]
  · have hconsole : flags.logtostderr ∨ flags.logtostdout ∨ ¬ flags.initialized := by
      cases hstderr : flags.logtostderr <;> cases hstdout : flags.logtostdout <;> simp_all
    rw [if_pos hconsole, List.flatMap_append, flatMap_sink h]
    cases hstdout : flags.logtostdout with
    | false =>
      rw [if_neg Bool.false_ne_true, flatMap_stderr h]
      have hplace : flags.logtostderr = true ∨ flags.initialized = false := by simpa [hstdout] using hconsole
      cases r with
      | stderr => rcases hplace with hplace | hplace <;> simp [hplace]
      | logfile i => rcases hplace with hplace | hplace <;> simp [hplace]
      | _ => simp
    | true =>
      rw [if_pos rfl, flatMap_stdout h]
      by_cases hthreshold : flags.stderrthreshold ≤ m.info.severity.toInt
      · rw [if_pos hthreshold]
        cases r <;> simp [hthreshold]
      · rw [if_neg hthreshold]
        cases r <;> simp [hthreshold]

theorem flatMap_beforeLog (h : Sending m flags d) : (beforeLog d).flatMap (pieces m d r) =
    match r with
    | .ownSink => if m.pointer ∧ (m.sendMethod = .sendToSink ∨ m.sendMethod = .sendToSinkAndLog) then
      [m.textFor .ownSink] else []
    | .string => if m.pointer ∧ m.sendMethod = .writeToStringAndLog then [m.textFor .string] else []
    | .syslog => if m.sendMethod = .sendToSyslogAndLog then [m.textFor .syslog] else []
    | _ => [] := by
  have hsink : pieces m d r (.send .ownSink d.numPrefixChars (bodyLength d)) = if r = .ownSink then [m.textFor r] else [] :=
    pieces_of_part h (.body rfl) nofun
  have hstring : pieces m d r (.send .string d.numPrefixChars (bodyLength d)) = if r = .string then [m.textFor r] else [] :=
    pieces_of_part h (.body rfl) nofun
  have hsyslog : pieces m d r (.send .syslog d.numPrefixChars d.numCharsToSyslog) =
      if r = .syslog then [m.textFor r] else [] :=
    pieces_of_part h .syslog nofun
  unfold beforeLog sendToSink
  rw [h.sendMethod, h.pointer]
  cases m.sendMethod <;> cases m.pointer <;> cases r <;> simp [hsink, hstring, hsyslog]

theorem flatMap_leaveLogs : (leaveLogs flags d).flatMap (pieces m d r) = [] := by
  refine List.flatMap_eq_nil_iff.mpr fun e he => ?_
  rcases List.mem_append.mp he with he | he
  · split at he
    · rw [List.mem_singleton.mp he]
      rfl
    · cases he
  · split at he
    · obtain ⟨i, -, rfl⟩ := List.mem_map.mp he
      rfl
    · cases he

theorem flatMap_waitForSinks {last : Bool} : (waitForSinks flags d last).flatMap (pieces m d r) = [] := by
  refine List.flatMap_eq_nil_iff.mpr fun e he => ?_
  rcases List.mem_append.mp he with he | he
  · obtain ⟨i, -, rfl⟩ := List.mem_map.mp he
    rfl
  · split at he
    · rw [List.mem_singleton.mp he]
      rfl
    · cases he

theorem flatMap_sendToLog : (sendToLog flags d).flatMap (pieces m d r) =
    (sendToDestinations flags d).flatMap (pieces m d r) ++
      if r = .stderr ∧ isFatal flags d = true then [stackTraceText] else [] := by
  rw [sendToLog, List.flatMap_append]
  congr 1
  split
  · rename_i hfatal
    rw [List.flatMap_append, flatMap_leaveLogs, List.flatMap_cons, List.flatMap_append, flatMap_waitForSinks,
      List.flatMap_singleton]
    simp [hfatal, pieces]
  · rename_i hfatal
    rw [List.flatMap_nil, if_neg fun hr => hfatal hr.2]

/-- The method gives the text to a vector in the place of `SendToLog`. -/
theorem flatMap_send (h : Sending m flags d) : (send flags d).flatMap (pieces m d r) =
    (beforeLog d).flatMap (pieces m d r) ++
      ((if r = .outvec ∧ m.pointer ∧ m.sendMethod = .saveOrSendToLog then [m.textFor r] else []) ++
        if callsSendToLog d then (sendToLog flags d).flatMap (pieces m d r) else []) := by
  by_cases hcalls : callsSendToLog d = true
  · have hnot : ¬ (r = .outvec ∧ m.pointer ∧ m.sendMethod = .saveOrSendToLog) := by
      rintro ⟨-, hpointer, hmethod⟩
      rw [callsSendToLog, h.sendMethod, hmethod, h.pointer, hpointer] at hcalls
      cases hcalls
    rw [send_eq_of_calls hcalls, List.flatMap_append, if_pos hcalls, if_neg hnot, List.nil_append]
  · rw [if_neg hcalls, List.append_nil]
    rw [callsSendToLog, h.sendMethod, h.pointer] at hcalls
    have hbody : pieces m d r (.send .outvec d.numPrefixChars (bodyLength d)) = if r = .outvec then [m.textFor r] else [] :=
      pieces_of_part h (.body rfl) nofun
    unfold send beforeLog saveOrSendToLog
    rw [h.sendMethod, h.pointer]
    cases hmethod : m.sendMethod <;> rw [hmethod] at hcalls
    case sendToSink => simp
    case saveOrSendToLog =>
      have hpointer : m.pointer = true := by simpa using hcalls
      simp [hpointer, hbody]
    all_goals exact absurd rfl hcalls

end

/-- What lets a message arrive as it should: the loggers can write, no callback throws, and the text is regular. -/
structure Entry.Fit (m : Entry) : Prop extends m.Answered where
  returns : ∀ e, m.throws e = false
  regular : Regular m.buf.stored (messagePrefix m.prefixFlags m.info) (messageText m.prefixFlags m.info m.insertions)

section
variable {m : Entry} {j : Journal} {r : Receiver}

theorem data_severity : (m.data j).severity = m.info.severity := by rw [Entry.data, filled_eq]; rfl

theorem data_sendMethod : (m.data j).sendMethod = m.sendMethod := by rw [Entry.data, filled_eq]; rfl

theorem data_pointer : (m.data j).pointer = m.pointer := by rw [Entry.data, filled_eq]; rfl

theorem data_firstFatal : (m.data j).firstFatal = (m.isFatal && j.fatalMsgExclusive) := by rw [Entry.data, filled_eq]; rfl

theorem sending_edited (h : m.Fit) : Sending m (m.flagsIn j) (edited (m.data j)) := by
  have hstored : (m.data j).buf.stored =
      (messagePrefix m.prefixFlags m.info ++ messageText m.prefixFlags m.info m.insertions).take capacity :=
    (stored_filled m.insertions).trans h.regular.stored
  have hprefixed : (m.data j).numPrefixChars = min capacity (messagePrefix m.prefixFlags m.info).length :=
    (numPrefixChars_filled m.insertions).trans h.regular.length
  have hle : (m.data j).numPrefixChars ≤ (m.data j).buf.pcount := numPrefixChars_le m.insertions
  have hseverity := data_severity (m := m) (j := j)
  have hmethod := data_sendMethod (m := m) (j := j)
  have hpointer := data_pointer (m := m) (j := j)
  generalize m.data j = d at *
  have hpcount : d.buf.pcount = d.buf.stored.length := pcount_eq d.buf
  have hpos : 0 < d.buf.pcount := by
    have htext := List.length_pos_iff.mpr h.regular.nonempty
    rw [hpcount, hstored, List.length_take, capacity_eq]
    omega
  have hline : slice (edited d).buf.text 0 (edited d).numCharsToLog = m.line := by
    rw [slice_edited_of_pos hpos, hstored]
    rfl
  have hlt : d.numPrefixChars < (edited d).numCharsToLog := by
    refine numPrefixChars_lt hpos hle fun hlast => ?_
    rw [hstored] at hlast
    have hnewline := h.regular.newline hlast
    rw [hpcount, hstored, hprefixed]
    omega
  have hroom := d.buf.room
  rw [capacity_eq] at hroom
  refine ⟨hseverity, hmethod, hpointer, hline, ?_, ?_⟩
  · have hlength : bodyLength (edited d) = (edited d).numCharsToLog - d.numPrefixChars - 1 :=
      bodyLength_of_lt hlt numCharsToLog_lt
    change slice (edited d).buf.text d.numPrefixChars (bodyLength (edited d)) = m.body
    rw [hlength, slice_body hlt, hline, Entry.body, bodyOf, hprefixed]
    rfl
  · change slice (edited d).buf.text d.numPrefixChars (sizeSub d.buf.pcount d.numPrefixChars) = m.syslogText
    have hsame : slice (edited d).buf.text 0 d.buf.pcount = d.buf.stored := slice_congr fun i _ hi => text_edited (by omega)
    have hdrop : (slice (edited d).buf.text 0 d.buf.pcount).drop d.numPrefixChars =
        slice (edited d).buf.text (0 + d.numPrefixChars) (d.buf.pcount - d.numPrefixChars) := drop_slice d.numPrefixChars
    rw [Nat.zero_add] at hdrop
    rw [sizeSub_of_le hle (by omega), ← hdrop, hsame, hstored, hprefixed]
    rfl

theorem perform_of_returns {throws : Event → Bool} (hreturns : ∀ e, throws e = false) (l : List Event) :
    perform throws l = (l, false) :=
  upTo_eq fun e _ => by rw [Event.stops, hreturns e, Bool.and_false]

theorem isDue_data : LogMessage.isDue (m.flagsIn j) (m.data j) = m.isDue := by
  have hfresh : (m.data j).hasBeenFlushed = false := by rw [Entry.data, filled_eq]; rfl
  rw [LogMessage.isDue, hfresh, data_severity, Entry.isDue, Bool.false_or]
  change (!decide (m.info.severity.toInt < m.flags.minloglevel)) = _
  rw [← decide_not]
  exact decide_eq_decide.mpr Int.not_lt

theorem callsSendToLog_data (hdue : m.isDue = true) : callsSendToLog (edited (m.data j)) = m.logs := by
  have hmethod : (edited (m.data j)).sendMethod = m.sendMethod := data_sendMethod
  have hpointer : (edited (m.data j)).pointer = m.pointer := data_pointer
  unfold callsSendToLog Entry.logs
  rw [hmethod, hpointer, hdue]
  cases m.sendMethod <;> rfl

theorem isFatal_data : LogMessage.isFatal (m.flagsIn j) (edited (m.data j)) = m.isFatal := by
  have hseverity : (edited (m.data j)).severity = m.info.severity := data_severity
  rw [LogMessage.isFatal, hseverity]
  rfl

/-- The accesses and the waiting of a `Flush` give nothing. -/
theorem flatMap_flush (h : m.Fit) (hdue : m.isDue = true) :
    (flush (m.flagsIn j) m.throws (m.data j)).events.flatMap (pieces m (edited (m.data j)) r) =
      (send (m.flagsIn j) (edited (m.data j))).flatMap (pieces m (edited (m.data j)) r) := by
  have hedit : (editAccesses (m.data j)).flatMap (pieces m (edited (m.data j)) r) = [] := by
    refine List.flatMap_eq_nil_iff.mpr fun e he => ?_
    rcases mem_editAccesses he with rfl | ⟨place, -, rfl⟩ <;> rfl
  have hundo : (undoAccesses (m.data j)).flatMap (pieces m (edited (m.data j)) r) = [] := by
    unfold undoAccesses
    split <;> rfl
  rw [flush, if_pos (isDue_data.trans hdue), locked, perform_of_returns h.returns, perform_of_returns h.returns]
  simp only [List.flatMap_append, List.flatMap_cons, hedit, flatMap_waitForSinks, Bool.false_eq_true, if_false, hundo]
  simp [pieces]

/-- What the receivers get of a message. -/
theorem flatMap_share (h : m.Fit) :
    (flush (m.flagsIn j) m.throws (m.data j)).events.flatMap (pieces m (edited (m.data j)) r) =
    m.share j.alreadyWarnedBeforeInitgoogle r := by
  cases hdue : m.isDue with
  | false =>
    have hnot : LogMessage.isDue (m.flagsIn j) (m.data j) = false := isDue_data.trans hdue
    rw [flush_of_not_due hnot]
    have hlogs : m.logs = false := by rw [Entry.logs, hdue, Bool.false_and]
    cases r <;> simp [Entry.share, Entry.routed, Entry.isEarly, Entry.isMailed, hdue, hlogs]
  | true =>
    have hsending := sending_edited (j := j) h
    have hwarned : (m.flagsIn j).alreadyWarnedBeforeInitgoogle = j.alreadyWarnedBeforeInitgoogle := rfl
    have hcalls := callsSendToLog_data (j := j) hdue
    rw [flatMap_flush h hdue, flatMap_send hsending, flatMap_beforeLog hsending, hcalls, flatMap_sendToLog,
      flatMap_destinations hsending, isFatal_data, hwarned]
    cases hlogs : m.logs with
    | false => cases r <;> simp [Entry.share, Entry.routed, Entry.isEarly, Entry.isMailed, hdue, hlogs]
    | true =>
      cases r with
      | stderr | logfile i | email =>
        by_cases hstdout : m.flags.logtostdout = true <;> by_cases hstderr : m.flags.logtostderr = true <;>
          by_cases hinitialized : m.flags.initialized = true <;>
          simp [Entry.share, Entry.routed, Entry.isEarly, Entry.isMailed, Entry.toFiles, Entry.aboveThreshold,
            hlogs, Entry.flagsIn, hstdout, hstderr, hinitialized]
      | sink i => by_cases hlt : i < m.flags.sinks <;> simp [Entry.share, Entry.routed, hlogs, Entry.flagsIn, hlt]
      | _ => simp [Entry.share, Entry.routed, Entry.aboveThreshold, hdue, hlogs, Entry.flagsIn]

/-! ### What a message leaves behind -/

/-- An event that changes a variable of the process. -/
inductive Marks : Event → Prop
  | warning : Marks .warning
  | storeFatal (length : Nat) : Marks (.storeFatal length)

variable {cfg : Config} {d : LogMessageData} {es : List Event} {e : Event}

/-- The variables that the events of a flush leave alone. -/
structure SameMutex (j j' : Journal) : Prop where
  exclusive : j'.fatalMsgExclusive = j.fatalMsgExclusive
  overReleased : j'.overReleased = j.overReleased
  waits : j'.waits = j.waits

theorem sameMutex_deliver : SameMutex j (deliver cfg m d j e) := by
  cases e with
  | send r start length => cases r <;> exact ⟨rfl, rfl, rfl⟩
  | flushLogfile i =>
    rw [deliver]
    split <;> exact ⟨rfl, rfl, rfl⟩
  | _ => exact ⟨rfl, rfl, rfl⟩

theorem sameMutex_foldl : SameMutex j (es.foldl (deliver cfg m d) j) := by
  induction es generalizing j with
  | nil => exact ⟨rfl, rfl, rfl⟩
  | cons e es ih =>
    obtain ⟨hexclusive, hoverReleased, hwaits⟩ := @sameMutex_deliver m j cfg d e
    obtain ⟨hexclusive', hoverReleased', hwaits'⟩ := @ih (deliver cfg m d j e)
    exact ⟨hexclusive'.trans hexclusive, hoverReleased'.trans hoverReleased, hwaits'.trans hwaits⟩

theorem variables_deliver (h : ¬ Marks e) :
    (deliver cfg m d j e).alreadyWarnedBeforeInitgoogle = j.alreadyWarnedBeforeInitgoogle ∧
      (deliver cfg m d j e).fatalMessage = j.fatalMessage := by
  cases e with
  | send r start length => cases r <;> exact ⟨rfl, rfl⟩
  | flushLogfile i =>
    rw [deliver]
    split <;> exact ⟨rfl, rfl⟩
  | warning => exact absurd .warning h
  | storeFatal length => exact absurd (.storeFatal length) h
  | _ => exact ⟨rfl, rfl⟩

theorem alreadyWarned_foldl : (es.foldl (deliver cfg m d) j).alreadyWarnedBeforeInitgoogle =
    (j.alreadyWarnedBeforeInitgoogle || es.contains .warning) := by
  induction es generalizing j with
  | nil => simp
  | cons e es ih =>
    rw [List.foldl_cons, ih]
    cases e with
    | warning => simp [deliver]
    | storeFatal length => simp [deliver]
    | _ =>
      rw [(variables_deliver (by rintro ⟨⟩)).1]
      simp

/-- The text is stored that the events agree on, if one stores any. -/
theorem fatalMessage_foldl {n : Nat} (h : ∀ length, .storeFatal length ∈ es → length = n) :
    (es.foldl (deliver cfg m d) j).fatalMessage = if .storeFatal n ∈ es then slice d.buf.text 0 n else j.fatalMessage := by
  induction es generalizing j with
  | nil => rfl
  | cons e es ih =>
    rw [List.foldl_cons, ih fun length hmem => h length (List.mem_cons_of_mem e hmem)]
    cases e with
    | storeFatal length =>
      have hlength : length = n := h length List.mem_cons_self
      subst hlength
      simp [deliver]
    | warning => simp [deliver, Journal.give]
    | _ =>
      rw [(variables_deliver (by rintro ⟨⟩)).2]
      simp

/-- The variables are changed by `SendToLog` only. -/
theorem marks_mem_flush (h : m.Fit) (he : Marks e) : e ∈ (flush (m.flagsIn j) m.throws (m.data j)).events ↔
    m.logs = true ∧ e ∈ sendToLog (m.flagsIn j) (edited (m.data j)) := by
  cases hdue : m.isDue with
  | false =>
    rw [flush_of_not_due (isDue_data.trans hdue), Entry.logs, hdue]
    simp
  | true =>
    have hbefore : e ∉ beforeLog (edited (m.data j)) := by
      unfold beforeLog sendToSink
      cases he <;> split <;> (try split) <;> simp
    have hwait : e ∉ waitForSinks (m.flagsIn j) (edited (m.data j)) true := by
      unfold waitForSinks
      cases he <;> split <;> simp
    have hedit : e ∉ editAccesses (m.data j) := fun hmem => by
      rcases mem_editAccesses hmem with rfl | ⟨place, -, rfl⟩ <;> cases he
    have hundo : e ∉ undoAccesses (m.data j) := by
      unfold undoAccesses
      cases he <;> split <;> simp
    have hend : e ≠ .lock ∧ e ≠ .count ∧ e ≠ .unlock := by cases he <;> simp
    have hsend : e ∈ send (m.flagsIn j) (edited (m.data j)) ↔ m.logs = true ∧
        e ∈ sendToLog (m.flagsIn j) (edited (m.data j)) := by
      rw [← callsSendToLog_data (j := j) hdue]
      by_cases hcalls : callsSendToLog (edited (m.data j)) = true
      · rw [send_eq_of_calls hcalls, List.mem_append]
        simp [hcalls, hbefore]
      · unfold callsSendToLog at hcalls
        unfold send
        cases hmethod : (edited (m.data j)).sendMethod <;> rw [hmethod] at hcalls
        case sendToSink =>
          unfold sendToSink
          cases he <;> split <;> simp_all [callsSendToLog]
        case saveOrSendToLog =>
          have hpointer : (edited (m.data j)).pointer = true := by simpa using hcalls
          cases he <;> simp [saveOrSendToLog, hpointer, callsSendToLog, hmethod]
        all_goals exact absurd rfl hcalls
    rw [flush, if_pos (isDue_data.trans hdue), locked, perform_of_returns h.returns, perform_of_returns h.returns]
    simp [hedit, hwait, hundo, hend, hsend]

theorem unmarked_logToSinks {flags : Flags} : Every (¬ Marks ·) (logToSinks flags d) :=
  (every_map (fun _ => nofun) _).cons nofun

theorem unmarked_stderr : Every (¬ Marks ·) (coloredWriteToStderr d) := every_singleton nofun

theorem unmarked_stdout {flags : Flags} : Every (¬ Marks ·) (coloredWriteToStdout flags d) := every_singleton nofun

theorem marks_mem_destinations {flags : Flags} (he : Marks e) : e ∈ sendToDestinations flags d ↔
    e = .warning ∧ flags.alreadyWarnedBeforeInitgoogle = false ∧ flags.initialized = false := by
  have hconsole : Every (¬ Marks ·)
      ((if flags.logtostdout then coloredWriteToStdout flags d else coloredWriteToStderr d) ++ logToSinks flags d) :=
    (every_ite unmarked_stdout unmarked_stderr).append unmarked_logToSinks
  have hfiles : Every (¬ Marks ·) (logToAllLogfiles flags d) :=
    every_ite unmarked_stdout (every_ite unmarked_stderr (every_map (fun _ => nofun) _))
  have hstderr : Every (¬ Marks ·) (maybeLogToStderr flags d) := every_ite unmarked_stderr every_nil
  have hemail : Every (¬ Marks ·) (maybeLogToEmail flags d) := every_ite (every_singleton nofun) every_nil
  have hsinks : Every (¬ Marks ·) (logToSinks flags d) := unmarked_logToSinks
  have hrest := every_ite (c := flags.logtostderr ∨ flags.logtostdout ∨ ¬ flags.initialized) hconsole
    (((hfiles.append hstderr).append hemail).append hsinks)
  rw [sendToDestinations, List.mem_append, or_iff_left fun hmem => hrest e hmem he]
  split
  · rename_i hearly
    simpa using fun _ => hearly
  · rename_i hearly
    simp_all

theorem marks_mem_sendToLog {flags : Flags} (he : Marks e) : e ∈ sendToLog flags d ↔
    (e = .warning ∧ flags.alreadyWarnedBeforeInitgoogle = false ∧ flags.initialized = false) ∨
      LogMessage.isFatal flags d = true ∧ d.firstFatal = true ∧ e = .storeFatal (min d.numCharsToLog 255) := by
  have hwait : e ∉ waitForSinks flags d false ++ [.stackTrace] := fun hmem => by
    have hquiet : Every (¬ Marks ·) (waitForSinks flags d false ++ [.stackTrace]) :=
      ((every_map (fun _ => nofun) _).append (every_ite (every_singleton nofun) every_nil)).append (every_singleton nofun)
    exact hquiet e hmem he
  have hunlock : e ≠ .unlock := by cases he <;> simp
  have hleave : e ∈ leaveLogs flags d ↔ d.firstFatal = true ∧ e = .storeFatal (min d.numCharsToLog 255) := by
    have hflush : Every (¬ Marks ·)
        (if flags.logtostderr = false ∧ flags.logtostdout = false then flags.logDestinations.map .flushLogfile else []) :=
      every_ite (every_map (fun _ => nofun) _) every_nil
    rw [leaveLogs, List.mem_append, or_iff_left fun hmem => hflush e hmem he]
    split <;> simp_all
  rw [sendToLog, List.mem_append, marks_mem_destinations he]
  split
  · rename_i hfatal
    have hbehind : e ∉ .unlock :: (waitForSinks flags d false ++ [.stackTrace]) := fun hmem =>
      (List.mem_cons.mp hmem).elim hunlock hwait
    simp [hfatal, hleave, hbehind]
  · rename_i hfatal
    simp [hfatal]

theorem alreadyWarned_perform (h : m.Fit) : (m.perform cfg j).alreadyWarnedBeforeInitgoogle =
    (j.alreadyWarnedBeforeInitgoogle || m.isEarly) := by
  have hmem : (flush (m.flagsIn j) m.throws (m.data j)).events.contains .warning = true ↔
      m.logs = true ∧ j.alreadyWarnedBeforeInitgoogle = false ∧ m.flags.initialized = false := by
    rw [List.contains_iff_mem, marks_mem_flush h .warning, marks_mem_sendToLog .warning]
    simp [Entry.flagsIn]
  rw [Entry.perform, alreadyWarned_foldl]
  cases hwarned : j.alreadyWarnedBeforeInitgoogle with
  | true => rfl
  | false =>
    rw [Bool.false_or, Bool.false_or, Bool.eq_iff_iff, hmem, hwarned, Entry.isEarly]
    simp

/-- The first fatal message leaves the beginning of its line, if it is logged. -/
theorem fatalMessage_perform (h : m.Fit) : (m.perform cfg j).fatalMessage =
    if m.logs ∧ m.isFatal ∧ j.fatalMsgExclusive then m.line.take 255 else j.fatalMessage := by
  have hmem : ∀ length, .storeFatal length ∈ (flush (m.flagsIn j) m.throws (m.data j)).events ↔
      m.logs = true ∧ m.isFatal = true ∧ j.fatalMsgExclusive = true ∧
        length = min (edited (m.data j)).numCharsToLog 255 := by
    intro length
    have hfirst : (edited (m.data j)).firstFatal = (m.isFatal && j.fatalMsgExclusive) := data_firstFatal
    rw [marks_mem_flush h (.storeFatal length), marks_mem_sendToLog (.storeFatal length), isFatal_data, hfirst]
    simp only [reduceCtorEq, false_and, false_or, Bool.and_eq_true, Event.storeFatal.injEq, and_assoc, and_self_left]
  have hslice : slice (edited (m.data j)).buf.text 0 (min (edited (m.data j)).numCharsToLog 255) = m.line.take 255 := by
    rw [← (sending_edited (j := j) h).line]
    rw [slice, slice, ← List.map_take, List.take_range, Nat.min_comm]
  rw [Entry.perform, fatalMessage_foldl fun length hlength => ((hmem length).mp hlength).2.2.2, hslice]
  simp only [hmem, and_true]

/-- A message releases the mutex twice if it is logged, and meant to end the program. -/
theorem releasesTwice_data (h : m.Fit) : releasesTwice (m.flagsIn j) m.throws (m.data j) = (m.logs && m.isFatal) := by
  rw [Bool.eq_iff_iff, releasesTwice_iff, isDue_data, Bool.and_eq_true]
  cases hdue : m.isDue with
  | false => simp [Entry.logs, hdue]
  | true =>
    have hcalls := callsSendToLog_data (j := j) hdue
    have hreturns : ∀ e ∈ beforeUnlock (m.flagsIn j) (edited (m.data j)), e.stops m.throws = false := fun e _ => by
      rw [Event.stops, h.returns e, Bool.and_false]
    constructor
    · rintro ⟨-, hreleases⟩
      exact ⟨hcalls.symm.trans hreleases.calls, isFatal_data.symm.trans hreleases.fatal⟩
    · rintro ⟨hlogs, hfatal⟩
      exact ⟨rfl, hcalls.trans hlogs, isFatal_data.trans hfatal, hreturns⟩

theorem perform_gives (h : m.Fit) (hcan : AllCanWrite cfg j.loggers) :
    AllCanWrite cfg (m.perform cfg j).loggers ∧ ∀ r,
      Gives j (m.perform cfg j) (m.share j.alreadyWarnedBeforeInitgoogle r) r := by
  obtain ⟨hall, hgives⟩ := foldl_deliver_gives (j := { j with
      fatalMsgExclusive := j.fatalMsgExclusive && !m.isFatal
      overReleased := j.overReleased || releasesTwice (m.flagsIn j) m.throws (m.data j) })
    (d := edited (m.data j)) h.toAnswered (flush (m.flagsIn j) m.throws (m.data j)).events hcan
  refine ⟨hall, fun r => ?_⟩
  have hr := hgives r
  rw [flatMap_share h] at hr
  cases r <;> exact hr

end

/-! ### Printing the fatal message again -/

/-- What the system answers to the loggers lets them write. -/
def Reprint.Fit (p : Reprint) : Prop := ∀ i, AllOpen (p.env i) ∧ (p.env i).diskFull = false

section
variable {cfg : Config} {p : Reprint} {j j' : Journal} {r : Receiver}

theorem foldl_maybeLogToLogfile_gives (h : p.Fit) {timestamp : Int} {message : Text} (l : List Severity)
    (hcan : AllCanWrite cfg j.loggers) :
    AllCanWrite cfg (l.foldl (fun j i => j.maybeLogToLogfile cfg i p.env timestamp message) j).loggers ∧
      ∀ r, Gives j (l.foldl (fun j i => j.maybeLogToLogfile cfg i p.env timestamp message) j)
        (l.flatMap fun i => if r = .logfile i then [message] else []) r := by
  induction l generalizing j with
  | nil => exact ⟨hcan, fun r => .refl⟩
  | cons i l ih =>
    obtain ⟨hfirst, hgives⟩ : AllCanWrite cfg (j.maybeLogToLogfile cfg i p.env timestamp message).loggers ∧
        ∀ r, Gives j (j.maybeLogToLogfile cfg i p.env timestamp message)
          (if r = Receiver.logfile i then [message] else []) r :=
      gives_writeTo (h i) hcan
    obtain ⟨hall, hrest⟩ := ih hfirst
    exact ⟨hall, fun r => (hgives r).trans (hrest r)⟩

theorem logToAllLogfiles_gives (h : p.Fit) {timestamp : Int} {message : Text} (hcan : AllCanWrite cfg j.loggers) :
    AllCanWrite cfg (p.logToAllLogfiles cfg .error timestamp message j).loggers ∧
      ∀ r, Gives j (p.logToAllLogfiles cfg .error timestamp message j)
      (match r with
      | .stdout =>
        if p.logtostdout ∧ Severity.error.toInt < p.stderrthreshold then
          [rendered p.colorFlags .error .stdout message] else []
      | .stderr =>
        if (p.logtostdout ∧ p.stderrthreshold ≤ Severity.error.toInt) ∨ (¬ p.logtostdout ∧ p.logtostderr) then
          [rendered p.colorFlags .error .stderr message]
        else []
      | .logfile i => if ¬ p.logtostdout ∧ ¬ p.logtostderr ∧ i.toInt ≤ Severity.error.toInt then [message] else []
      | _ => []) r := by
  unfold Reprint.logToAllLogfiles
  split
  · rename_i hstdout
    dsimp only
    by_cases hthreshold : p.stderrthreshold ≤ Severity.error.toInt
    · rw [if_pos hthreshold]
      refine ⟨hcan, fun r => ?_⟩
      have hgives := @gives_give j r (rendered p.colorFlags .error .stderr message) .stderr nofun
      cases r <;> simpa [hstdout, hthreshold, Int.not_lt.mpr hthreshold] using hgives
    · rw [if_neg hthreshold]
      refine ⟨hcan, fun r => ?_⟩
      have hgives := @gives_give j r (rendered p.colorFlags .error .stdout message) .stdout nofun
      cases r <;> simpa [hstdout, hthreshold, Int.not_le.mp hthreshold] using hgives
  · rename_i hstdout
    split
    · rename_i hstderr
      refine ⟨hcan, fun r => ?_⟩
      have hgives := @gives_give j r (rendered p.colorFlags .error .stderr message) .stderr nofun
      cases r <;> simpa [hstdout, hstderr] using hgives
    · rename_i hstderr
      obtain ⟨hall, hgives⟩ := @foldl_maybeLogToLogfile_gives cfg p j h timestamp message Severity.error.andLower hcan
      refine ⟨hall, fun r => ?_⟩
      have hr := hgives r
      cases r with
      | logfile i =>
        simp only [Receiver.logfile.injEq] at hr
        rw [flatMap_ite (Severity.nodup_andLower _)] at hr
        simpa [hstdout, hstderr, Severity.mem_andLower] using hr
      | _ =>
        have hnone : (Severity.error.andLower.flatMap fun _ => ([] : List Text)) = [] := rfl
        simpa [hstdout, hstderr, hnone] using hr

theorem reprint_gives (h : p.Fit) (hcan : AllCanWrite cfg j.loggers) :
    AllCanWrite cfg (p.execute cfg j).loggers ∧
      ∀ r,
        Gives j (p.execute cfg j) (if cString j.fatalMessage = [] then [] else p.share (cString j.fatalMessage) r) r := by
  by_cases hempty : cString j.fatalMessage = []
  · rw [Reprint.execute]
    simp only [hempty, if_true]
    exact ⟨hcan, fun r => .refl⟩
  · rw [Reprint.execute, if_neg hempty]
    generalize cString j.fatalMessage = message at hempty ⊢
    have hfirst : AllCanWrite cfg (if p.logtostderr then j else j.give .stderr message).loggers := by
      split <;> exact hcan
    have hgiven : ∀ r, Gives j (if p.logtostderr then j else j.give .stderr message)
        (if p.logtostderr then [] else if r = .stderr then [message] else []) r := fun r => by
      split
      · exact .refl
      · exact gives_give .stderr nofun
    obtain ⟨hall, hgives⟩ := @logToAllLogfiles_gives cfg p _ h j.fatalTime message hfirst
    refine ⟨hall, fun r => ?_⟩
    have hr := (hgiven r).trans (hgives r)
    rw [if_neg hempty]
    cases r <;> simpa [Reprint.share] using hr

theorem foldl_maybeLogToLogfile_eq {timestamp : Int} {message : Text} (l : List Severity) :
    l.foldl (fun j i => j.maybeLogToLogfile cfg i p.env timestamp message) j =
      { j with loggers := (l.foldl (fun j i => j.maybeLogToLogfile cfg i p.env timestamp message) j).loggers } := by
  induction l generalizing j with
  | nil => rfl
  | cons i l ih => exact ih

/-- The variables of the process remain. -/
structure Keeps (j j' : Journal) : Prop extends SameMutex j j' where
  warned : j'.alreadyWarnedBeforeInitgoogle = j.alreadyWarnedBeforeInitgoogle
  fatalMessage : j'.fatalMessage = j.fatalMessage

theorem keeps_reprint : Keeps j (p.execute cfg j) := by
  rw [Reprint.execute]
  split
  · exact ⟨⟨rfl, rfl, rfl⟩, rfl, rfl⟩
  · rw [Reprint.logToAllLogfiles, foldl_maybeLogToLogfile_eq]
    by_cases hstderr : p.logtostderr = true
    · simp only [hstderr, if_true]
      split <;> exact ⟨⟨rfl, rfl, rfl⟩, rfl, rfl⟩
    · simp only [hstderr]
      split <;> exact ⟨⟨rfl, rfl, rfl⟩, rfl, rfl⟩

end

end Glog.LogMessage
