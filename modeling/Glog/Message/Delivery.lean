import Glog.Message.Flush

/-! # What a flush hands over

`Flush` puts a `\n` behind the text of the message, inside of its array, and hands out parts of the array: the whole to
the log, and what is behind the prefix, without the `\n`, to the sinks, vectors and strings. -/

namespace Glog.LogMessage
open LogFile Run

/-! ### The edit -/

def withNewline (l : Text) : Text := if l.getLast? = some '\n' then l else l ++ ['\n']

section
variable {d : LogMessageData} {i : Nat}

theorem numCharsToLog_edited : (edited d).numCharsToLog = if appendNewline d then d.buf.pcount + 1 else d.buf.pcount := rfl

theorem pcount_le_numCharsToLog : d.buf.pcount ≤ (edited d).numCharsToLog ∧
    (edited d).numCharsToLog ≤ d.buf.pcount + 1 := by
  rw [numCharsToLog_edited]
  split
  · exact ⟨Nat.le_succ _, Nat.le_refl _⟩
  · exact ⟨Nat.le_refl _, Nat.le_succ _⟩

/-- The edit is behind the text, and before the end of the array. -/
theorem numCharsToLog_lt : (edited d).numCharsToLog < kMaxLogMessageLen := by
  have hroom := d.buf.room
  have hle := (@pcount_le_numCharsToLog d).2
  rw [capacity_eq] at hroom
  rw [kMaxLogMessageLen]
  omega

theorem text_edited (hi : i < d.buf.pcount) : (edited d).buf.text i = d.buf.text i := by
  have hle := (@pcount_le_numCharsToLog d).1
  change setPlace (edited d).numCharsToLog '\x00' _ i = _
  rw [setPlace_ne (by omega)]
  split
  · exact setPlace_ne (by omega)
  · rfl

theorem text_restored (hi : i < d.buf.pcount) : (restored d).buf.text i = d.buf.text i := by
  unfold restored
  split
  · exact (setPlace_ne (by omega)).trans (text_edited hi)
  · exact text_edited hi

theorem slice_edited : slice (edited d).buf.text 0 (edited d).numCharsToLog =
    if appendNewline d then d.buf.stored ++ ['\n'] else d.buf.stored := by
  have hsame : slice (edited d).buf.text 0 d.buf.pcount = d.buf.stored := slice_congr fun i _ hi => text_edited (by omega)
  rw [numCharsToLog_edited]
  split
  · rename_i happend
    rw [slice_succ, hsame, Nat.zero_add]
    have hnewline : (edited d).buf.text d.buf.pcount = '\n' := by
      change setPlace (edited d).numCharsToLog '\x00' _ d.buf.pcount = _
      rw [setPlace_ne (by rw [numCharsToLog_edited, if_pos happend]; omega), if_pos happend, setPlace_self]
    rw [hnewline]
  · exact hsame

theorem lastPlace_eq (h : 0 < d.buf.pcount) : lastPlace d = d.buf.pcount - 1 := by
  have hroom := d.buf.room
  rw [capacity_eq] at hroom
  exact sizeSub_of_le h (by omega)

theorem getLast?_stored {b : LogStreamBuf} (h : 0 < b.pcount) : b.stored.getLast? = some (b.text (b.pcount - 1)) := by
  obtain ⟨m, hm⟩ := Nat.exists_eq_succ_of_ne_zero (Nat.ne_of_gt h)
  rw [LogStreamBuf.stored, hm, Nat.succ_eq_add_one, slice_succ, List.getLast?_concat, Nat.zero_add, Nat.add_sub_cancel]

theorem appendNewline_iff (h : 0 < d.buf.pcount) : appendNewline d = true ↔ d.buf.stored.getLast? ≠ some '\n' := by
  rw [appendNewline, lastPlace_eq h, getLast?_stored h, bne_iff_ne, ne_eq, ne_eq, Option.some.injEq]

/-- Something is behind the prefix: a `\n` is appended, or the text ends in one. -/
theorem numPrefixChars_lt (hpos : 0 < d.buf.pcount) (hle : d.numPrefixChars ≤ d.buf.pcount)
    (hnewline : d.buf.stored.getLast? = some '\n' → d.numPrefixChars < d.buf.pcount) :
    d.numPrefixChars < (edited d).numCharsToLog := by
  rw [numCharsToLog_edited]
  split
  · omega
  · rename_i hnot
    exact hnewline (Classical.byContradiction fun hlast => hnot ((appendNewline_iff hpos).mpr hlast))

/-- A text that is not empty is handed to the log with one `\n`. -/
theorem slice_edited_of_pos (h : 0 < d.buf.pcount) :
    slice (edited d).buf.text 0 (edited d).numCharsToLog = withNewline d.buf.stored := by
  rw [slice_edited, withNewline]
  by_cases hlast : d.buf.stored.getLast? = some '\n'
  · rw [if_neg (fun happend => (appendNewline_iff h).mp happend hlast), if_pos hlast]
  · rw [if_pos ((appendNewline_iff h).mpr hlast), if_neg hlast]

theorem bodyLength_of_lt (h : d.numPrefixChars < d.numCharsToLog) (hlog : d.numCharsToLog < kMaxLogMessageLen) :
    bodyLength d = d.numCharsToLog - d.numPrefixChars - 1 := by
  rw [kMaxLogMessageLen] at hlog
  have hprefixed : sizeSub d.numCharsToLog d.numPrefixChars = d.numCharsToLog - d.numPrefixChars :=
    sizeSub_of_le (by omega) (by omega)
  rw [bodyLength, hprefixed, sizeSub_of_le (by omega) (by omega)]

/-- Without room for a `\n` behind the prefix the subtraction underflows. -/
theorem bodyLength_of_eq (h : d.numPrefixChars = d.numCharsToLog) (hlog : d.numCharsToLog < kMaxLogMessageLen) :
    bodyLength d = 18446744073709551615 := by
  rw [kMaxLogMessageLen] at hlog
  rw [bodyLength, h, sizeSub_of_le (Nat.le_refl _) (by omega), Nat.sub_self]
  rfl

/-- The part behind `k` characters, without the last one. -/
theorem slice_body {text : Nat → Char} {k n : Nat} (h : k < n) :
    slice text k (n - k - 1) = ((slice text 0 n).drop k).dropLast := by
  obtain ⟨m, rfl⟩ : ∃ m, n = k + m + 1 := ⟨n - k - 1, by omega⟩
  rw [drop_slice, Nat.zero_add, show k + m + 1 - k - 1 = m by omega, show k + m + 1 - k = m + 1 by omega, slice_succ,
    List.dropLast_concat]

end

/-! ### A message -/

section
variable (prefixFlags : PrefixFlags) (info : LogMessageInfo) (sendMethod : SendMethod) (pointer firstFatal : Bool)
  (buf : LogStreamBuf) (insertions : List Text)

/-- A message that has been constructed in a storage, and filled. -/
def filled : LogMessageData :=
  insertions.foldl (fun d l => stream l d) (init prefixFlags info sendMethod pointer firstFatal buf)

/-- The text that is streamed behind the prefix. -/
def messageText : Text := backtrace prefixFlags info ++ insertions.flatten

variable {prefixFlags info sendMethod pointer firstFatal buf}

theorem insert_append (l l' : Text) (b : LogStreamBuf) : b.insert (l ++ l') = (b.insert l).insert l' := List.foldl_append

theorem foldl_stream (d : LogMessageData) :
    insertions.foldl (fun d l => stream l d) d = { d with buf := d.buf.insert insertions.flatten } := by
  induction insertions generalizing d with
  | nil => rfl
  | cons l insertions ih => rw [List.foldl_cons, ih, List.flatten_cons, insert_append]; rfl

theorem filled_eq : filled prefixFlags info sendMethod pointer firstFatal buf insertions =
    { init prefixFlags info sendMethod pointer firstFatal buf with
      buf := (buf.insert (messagePrefix prefixFlags info)).insert (messageText prefixFlags info insertions) } := by
  rw [filled, foldl_stream, messageText, insert_append]
  rfl

theorem stored_filled : (filled prefixFlags info sendMethod pointer firstFatal buf insertions).buf.stored =
    (buf.stored ++ messagePrefix prefixFlags info ++ messageText prefixFlags info insertions).take capacity := by
  rw [filled_eq]
  dsimp only
  rw [stored_insert, stored_insert, take_append_take]

theorem numPrefixChars_filled : (filled prefixFlags info sendMethod pointer firstFatal buf insertions).numPrefixChars =
    min capacity (buf.stored ++ messagePrefix prefixFlags info).length := by
  rw [filled_eq]
  change (buf.insert (messagePrefix prefixFlags info)).pcount = _
  rw [pcount_eq, stored_insert, List.length_take]

theorem numPrefixChars_le : (filled prefixFlags info sendMethod pointer firstFatal buf insertions).numPrefixChars ≤
    (filled prefixFlags info sendMethod pointer firstFatal buf insertions).buf.pcount := by
  have hle :=
    (List.prefix_append (buf.stored ++ messagePrefix prefixFlags info) (messageText prefixFlags info insertions)).length_le
  rw [pcount_eq, stored_filled, numPrefixChars_filled, List.length_take]
  omega

theorem isDue_filled {flags : Flags} (hlevel : flags.minloglevel ≤ info.severity.toInt) :
    isDue flags (filled prefixFlags info sendMethod pointer firstFatal buf insertions) = true := by
  rw [filled_eq]
  exact isDue_iff.mpr ⟨rfl, hlevel⟩

end

/-! ### The events of a flush -/

/-- A place of the array that is read or written at an event. -/
def Touches : Event → Nat → Prop
  | .access place, i => i = place
  | .send _ start length, i => start ≤ i ∧ i < start + length
  | .storeFatal length, i => i < length
  | _, _ => False

/-- The bytes that are handed to the log are `line`, those that are handed to the sinks are `body`, and the text remains. -/
structure Delivered (line body : Text) (d : LogMessageData) (f : Flushed) : Prop where
  inside : ∀ e ∈ f.events, ∀ i, Touches e i → i ≤ kMaxLogMessageLen
  toLog : ∀ r start length, r.takesLine = true → .send r start length ∈ f.events →
    slice (edited d).buf.text start length = line
  toBody : ∀ r start length, r.takesBody = true → .send r start length ∈ f.events →
    slice (edited d).buf.text start length = body
  toSinks : ∀ start length, .logToSinks start length ∈ f.events → slice (edited d).buf.text start length = body
  kept : ∀ i < d.buf.pcount, f.data.buf.text i = d.buf.text i

section
variable {flags : Flags} {throws : Event → Bool} {d : LogMessageData} {e : Event}

theorem mem_editAccesses (h : e ∈ editAccesses d) :
    e = .access (lastPlace d) ∨ ∃ place ≤ d.buf.pcount + 1, e = .access place := by
  rcases List.mem_cons.mp h with rfl | hmem
  · exact Or.inl rfl
  · right
    split at hmem
    · simp only [List.mem_cons, List.not_mem_nil, or_false] at hmem
      rcases hmem with rfl | rfl | rfl
      · exact ⟨_, Nat.le_succ _, rfl⟩
      · exact ⟨_, Nat.le_succ _, rfl⟩
      · exact ⟨_, Nat.le_refl _, rfl⟩
    · exact ⟨_, Nat.le_succ _, List.mem_singleton.mp hmem⟩

/-- An event of a flush is about the right part of the text, or accesses the text at its end, or is about the mutex. -/
theorem mem_flush_events (h : e ∈ (flush flags throws d).events) :
    Part (edited d) e ∨ e = .access (lastPlace d) ∨ (∃ place ≤ d.buf.pcount + 1, e = .access place) ∨
      e = .lock ∨ e = .unlock ∨ e = .count := by
  cases hdue : isDue flags d with
  | false =>
    rw [flush_of_not_due hdue] at h
    cases h
  | true =>
    rw [flush, if_pos hdue] at h
    simp only [locked, List.mem_append, List.mem_cons, List.not_mem_nil, or_false] at h
    rcases h with hedit | (rfl | hsent | rfl | rfl) | hwait | hundo
    · exact Or.inr ((mem_editAccesses hedit).imp_right Or.inl)
    · exact Or.inr (Or.inr (Or.inr (Or.inl rfl)))
    · rcases part_or_unlock e (mem_of_upTo hsent) with hpart | rfl
      · exact Or.inl hpart
      · exact Or.inr (Or.inr (Or.inr (Or.inr (Or.inl rfl))))
    · exact Or.inr (Or.inr (Or.inr (Or.inr (Or.inr rfl))))
    · exact Or.inr (Or.inr (Or.inr (Or.inr (Or.inl rfl))))
    · exact Or.inl (part_waitForSinks e (mem_of_upTo hwait))
    · split at hundo
      · cases hundo
      · have hplace : Every (fun e => ∃ place ≤ d.buf.pcount + 1, e = .access place) (undoAccesses d) :=
          every_ite (every_singleton ⟨d.buf.pcount, Nat.le_succ _, rfl⟩) every_nil
        exact Or.inr (Or.inr (Or.inl (hplace e hundo)))

/-- What is sent is the right part of the text. -/
theorem part_of_send {r : Receiver} {start length : Nat} (h : .send r start length ∈ (flush flags throws d).events) :
    Part (edited d) (.send r start length) := by
  rcases mem_flush_events h with hpart | h | ⟨place, -, h⟩ | h | h | h
  · exact hpart
  all_goals cases h

theorem part_of_logToSinks {start length : Nat} (h : .logToSinks start length ∈ (flush flags throws d).events) :
    Part (edited d) (.logToSinks start length) := by
  rcases mem_flush_events h with hpart | h | ⟨place, -, h⟩ | h | h | h
  · exact hpart
  all_goals cases h

theorem text_flush {i : Nat} (hi : i < d.buf.pcount) : (flush flags throws d).data.buf.text i = d.buf.text i := by
  unfold flush
  split
  · dsimp only
    split
    · exact text_edited hi
    · exact text_restored hi
  · rfl

end

/-! ### When the right bytes are handed over -/

/-- The text is not empty, something of it is behind the prefix if it ends in a `\n`, and what is in the storage already,
    which is nothing unless a static storage is used again, does not show. -/
structure Regular (old p t : Text) : Prop where
  nonempty : p ++ t ≠ []
  newline : ((p ++ t).take capacity).getLast? = some '\n' → p.length < ((p ++ t).take capacity).length
  stored : (old ++ p ++ t).take capacity = (p ++ t).take capacity
  length : min capacity (old ++ p).length = min capacity p.length

section
variable {flags : Flags} {throws : Event → Bool} {d : LogMessageData} {p t : Text}

/-- What the log is handed: the bytes that fit, and a `\n`. -/
def lineOf (p t : Text) : Text := withNewline ((p ++ t).take capacity)

/-- The same without the prefix and the final `\n`. -/
def bodyOf (p t : Text) : Text := ((lineOf p t).drop (min capacity p.length)).dropLast

/-- A text behind its prefix is handed over as it should be. -/
theorem delivered_of_lt (hpos : 0 < d.buf.pcount) (hlt : d.numPrefixChars < (edited d).numCharsToLog)
    (hline : withNewline d.buf.stored = lineOf p t) (hprefixed : d.numPrefixChars = min capacity p.length) :
    Delivered (lineOf p t) (bodyOf p t) d (flush flags throws d) := by
  have hroom := d.buf.room
  have hend := @numCharsToLog_lt d
  rw [capacity_eq] at hroom
  rw [kMaxLogMessageLen] at hend
  have hlog : slice (edited d).buf.text 0 (edited d).numCharsToLog = lineOf p t := (slice_edited_of_pos hpos).trans hline
  have hlength : bodyLength (edited d) = (edited d).numCharsToLog - d.numPrefixChars - 1 :=
    bodyLength_of_lt hlt numCharsToLog_lt
  have hbody : slice (edited d).buf.text d.numPrefixChars (bodyLength (edited d)) = bodyOf p t := by
    rw [hlength, slice_body hlt, hlog, bodyOf, hprefixed]
  constructor
  · intro e he i htouches
    rw [kMaxLogMessageLen]
    rcases mem_flush_events he with hpart | rfl | ⟨place, hplace, rfl⟩ | rfl | rfl | rfl
    · have hle := (@pcount_le_numCharsToLog d).2
      have hsyslog : (edited d).numCharsToSyslog = d.buf.pcount - d.numPrefixChars := sizeSub_of_le (by omega) (by omega)
      cases hpart with
      | line | storeFatal =>
        rw [Touches] at htouches
        omega
      | body =>
        rw [Touches, hlength] at htouches
        change d.numPrefixChars ≤ i ∧ i < d.numPrefixChars + _ at htouches
        omega
      | syslog =>
        rw [Touches, hsyslog] at htouches
        change d.numPrefixChars ≤ i ∧ i < d.numPrefixChars + _ at htouches
        omega
      | _ => cases htouches
    · rw [Touches, lastPlace_eq hpos] at htouches
      omega
    · rw [Touches] at htouches
      omega
    all_goals cases htouches
  · intro r start length hr hmem
    cases part_of_send hmem with
    | line => exact hlog
    | body h => cases r <;> cases hr <;> cases h
    | syslog => cases hr
  · intro r start length hr hmem
    cases part_of_send hmem with
    | line h => cases r <;> cases hr <;> cases h
    | body => exact hbody
    | syslog => cases hr
  · intro start length hmem
    cases part_of_logToSinks hmem
    exact hbody
  · exact fun i hi => text_flush hi

/-- A setting in which the message goes to its log file and to one sink. -/
def sinkFlags : Flags := { plainFlags with sinks := 1 }

theorem severity_nonneg (severity : Severity) : 0 ≤ severity.toInt := by
  cases severity <;> decide

theorem mem_flush_of_send (hdue : isDue flags d = true) (hreturns : ∀ e, throws e = false) {e : Event}
    (he : e ∈ send flags (edited d)) : e ∈ (flush flags throws d).events := by
  have hall : ∀ e ∈ send flags (edited d), e.stops throws = false :=
    fun e _ => by rw [Event.stops, hreturns e, Bool.and_false]
  have hsent : e ∈ (perform throws (send flags (edited d))).1 := by
    rw [perform, upTo_eq hall]
    exact he
  rw [flush, if_pos hdue, locked]
  exact List.mem_append_right _ (List.mem_append_left _ (List.mem_cons_of_mem _ (List.mem_append_left _ hsent)))

/-- The events by which the message is handed to its log file and to the sink. -/
theorem mem_send_sinkFlags (hmethod : d.sendMethod = .sendToLog) :
    .send (.logfile d.severity) 0 d.numCharsToLog ∈ send sinkFlags d ∧
      .send (.sink 0) d.numPrefixChars (bodyLength d) ∈ send sinkFlags d := by
  have hfile : Event.send (.logfile d.severity) 0 d.numCharsToLog ∈ logToAllLogfiles sinkFlags d :=
    List.mem_map.mpr ⟨d.severity, by cases d.severity <;> exact List.mem_cons_self, rfl⟩
  have hsink : Event.send (.sink 0) d.numPrefixChars (bodyLength d) ∈ logToSinks sinkFlags d :=
    List.mem_cons_of_mem _ List.mem_cons_self
  rw [send, hmethod]
  dsimp only
  rw [sendToLog, sendToDestinations]
  have hbranch : ¬ (sinkFlags.logtostderr ∨ sinkFlags.logtostdout ∨ ¬ sinkFlags.initialized) := by decide
  rw [if_neg hbranch]
  simp only [List.mem_append]
  exact ⟨Or.inl (Or.inr (Or.inl (Or.inl (Or.inl hfile)))), Or.inl (Or.inr (Or.inr hsink))⟩

end

/-! ### The exact condition -/

/-- Texts of the same length that become the same. -/
theorem eq_of_withNewline {l l' : Text} (h : withNewline l = withNewline l') (hlength : l.length = l'.length) : l = l' := by
  unfold withNewline at h
  split at h
  · split at h
    · exact h
    · have hsum := congrArg List.length h
      rw [List.length_append] at hsum
      simp at hsum
      omega
  · split at h
    · have hsum := congrArg List.length h
      rw [List.length_append] at hsum
      simp at hsum
      omega
    · exact List.append_cancel_right h

section
variable {prefixFlags : PrefixFlags} {info : LogMessageInfo} {buf : LogStreamBuf} {insertions : List Text}

variable {sendMethod : SendMethod} {pointer firstFatal : Bool} {flags : Flags} {throws : Event → Bool}

theorem delivered_of_regular
    (h : Regular buf.stored (messagePrefix prefixFlags info) (messageText prefixFlags info insertions)) :
    Delivered (lineOf (messagePrefix prefixFlags info) (messageText prefixFlags info insertions))
      (bodyOf (messagePrefix prefixFlags info) (messageText prefixFlags info insertions))
      (filled prefixFlags info sendMethod pointer firstFatal buf insertions)
      (flush flags throws (filled prefixFlags info sendMethod pointer firstFatal buf insertions)) := by
  have hstored := @stored_filled prefixFlags info sendMethod pointer firstFatal buf insertions
  have hprefixed := @numPrefixChars_filled prefixFlags info sendMethod pointer firstFatal buf insertions
  have hle := @numPrefixChars_le prefixFlags info sendMethod pointer firstFatal buf insertions
  generalize filled prefixFlags info sendMethod pointer firstFatal buf insertions = d at hstored hprefixed hle ⊢
  rw [h.stored] at hstored
  rw [h.length] at hprefixed
  have hpcount := congrArg List.length hstored
  rw [← pcount_eq] at hpcount
  have hpos : 0 < d.buf.pcount := by
    have htext := List.length_pos_iff.mpr h.nonempty
    rw [hpcount, List.length_take, capacity_eq]
    omega
  refine delivered_of_lt hpos (numPrefixChars_lt hpos hle fun hlast => ?_) (congrArg withNewline hstored) hprefixed
  rw [hstored] at hlast
  have hnewline := h.newline hlast
  omega

theorem mem_access (hdue : isDue flags d = true) : .access (lastPlace d) ∈ (flush flags throws d).events := by
  rw [flush, if_pos hdue]
  exact List.mem_append_left _ List.mem_cons_self

theorem regular_of_delivered
    (h : Delivered (lineOf (messagePrefix prefixFlags info) (messageText prefixFlags info insertions))
      (bodyOf (messagePrefix prefixFlags info) (messageText prefixFlags info insertions))
      (filled prefixFlags info .sendToLog pointer firstFatal buf insertions)
      (flush sinkFlags (fun _ => false) (filled prefixFlags info .sendToLog pointer firstFatal buf insertions))) :
    Regular buf.stored (messagePrefix prefixFlags info) (messageText prefixFlags info insertions) := by
  have hstored := @stored_filled prefixFlags info .sendToLog pointer firstFatal buf insertions
  have hprefixed := @numPrefixChars_filled prefixFlags info .sendToLog pointer firstFatal buf insertions
  have hle := @numPrefixChars_le prefixFlags info .sendToLog pointer firstFatal buf insertions
  have hdue : isDue sinkFlags (filled prefixFlags info .sendToLog pointer firstFatal buf insertions) = true :=
    isDue_filled _ (severity_nonneg _)
  have hmethod : (filled prefixFlags info .sendToLog pointer firstFatal buf insertions).sendMethod = .sendToLog := by
    rw [filled_eq]
    rfl
  generalize filled prefixFlags info .sendToLog pointer firstFatal buf insertions = d at *
  generalize messagePrefix prefixFlags info = p at *
  generalize messageText prefixFlags info insertions = t at *
  obtain ⟨hfile, hsink⟩ := mem_send_sinkFlags (d := edited d) hmethod
  have hline := h.toLog _ _ _ rfl (mem_flush_of_send hdue (fun _ => rfl) hfile)
  have hbody := h.toBody _ _ _ rfl (mem_flush_of_send hdue (fun _ => rfl) hsink)
  have hpcount := congrArg List.length hstored
  rw [← pcount_eq, List.length_take] at hpcount
  have hpos : 0 < d.buf.pcount := by
    refine Nat.pos_of_ne_zero fun hempty => ?_
    have hinside := h.inside _ (mem_access hdue) _ rfl
    rw [lastPlace, hempty] at hinside
    exact absurd hinside (by decide)
  -- The log is handed the whole text, the sink all of it but the prefix and the `\n`.
  rw [slice_edited_of_pos hpos, hstored] at hline
  have hwhole := congrArg List.length (@slice_edited_of_pos d hpos)
  rw [length_slice, hstored, hline] at hwhole
  have hlength := congrArg List.length hbody
  rw [length_slice, bodyOf, List.length_dropLast, List.length_drop, ← hwhole] at hlength
  have hend := @numCharsToLog_lt d
  have hge := (@pcount_le_numCharsToLog d).1
  have hlt : d.numPrefixChars < (edited d).numCharsToLog := by
    refine Nat.lt_of_le_of_ne (Nat.le_trans hle hge) fun hfull => ?_
    rw [bodyLength_of_eq hfull hend] at hlength
    rw [kMaxLogMessageLen] at hend
    omega
  rw [bodyLength_of_lt hlt hend] at hlength
  change (edited d).numCharsToLog - d.numPrefixChars - 1 = _ at hlength
  have hsame : min capacity (buf.stored ++ p).length = min capacity p.length := by
    rw [List.length_append] at hprefixed ⊢
    omega
  have hcut : (buf.stored ++ p ++ t).take capacity = (p ++ t).take capacity := by
    refine eq_of_withNewline hline ?_
    rw [List.length_append] at hsame
    simp only [List.length_take, List.length_append]
    omega
  refine ⟨fun hempty => ?_, fun hlast => ?_, hcut, hsame⟩
  · rw [hcut, hempty, List.take_nil] at hstored
    rw [pcount_eq, hstored] at hpos
    exact absurd hpos (Nat.lt_irrefl 0)
  · have hnot : ¬ appendNewline d = true :=
      fun happend => (appendNewline_iff hpos).mp happend (by rw [hstored, hcut, hlast])
    rw [numCharsToLog_edited, if_neg hnot] at hlt
    rw [← hcut, List.length_take]
    rw [List.length_append] at hsame hprefixed
    omega

end

end Glog.LogMessage
