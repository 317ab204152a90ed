import Glog.Message.Delivery
import Glog.Text.Formatted

/-! # The line of a sink

`LogSink::ToString` formats again what `Init` has streamed into the message before its text. -/

namespace Glog.LogMessage
open Formatted LogFile

/-! ### The formatters -/

/-- What a message is logged with, the id of its thread included, which is an `int`. -/
structure Logged where
  severity : Severity
  basename : Text
  line : Int
  time : LogMessageTime
  tid : BitVec 32

/-- What both stream, with the number that is printed for the thread. -/
def lineItems (logYearInPrefix : Bool) (l : Logged) (threadId : Int) : List Item :=
  .put (l.severity.name.take 1) ::
    ((if logYearInPrefix then [.setw 4, .put (decimal (1900 + l.time.year))] else []) ++
      [.setw 2, .put (decimal (1 + l.time.month)), .setw 2, .put (decimal l.time.day), .put [' '],
        .setw 2, .put (decimal l.time.hour), .put [':'], .setw 2, .put (decimal l.time.min), .put [':'],
        .setw 2, .put (decimal l.time.sec), .put ['.'], .setw 6, .put (decimal l.time.usec), .put [' '],
        .setfill ' ', .setw 5, .put (decimal threadId), .setfill '0', .put [' '],
        .put l.basename, .put [':'], .put (decimal l.line), .put "] ".toList])

/-- The default prefix in `Init`, with `static_cast<unsigned int>(GetTID())`; `FillSaver` has set the fill character. -/
def initPrefix (logYearInPrefix : Bool) (l : Logged) : Text := output '0' 0 (lineItems logYearInPrefix l l.tid.toNat)

/-- `LogSink::ToString` -/
def logSinkToString (logYearInPrefix : Bool) (l : Logged) (message : Text) : Text :=
  output '0' 0 (lineItems logYearInPrefix l l.tid.toInt ++ [.write message])

/-- What the prefix is made of. -/
def Logged.info (l : Logged) : LogMessageInfo := ⟨l.severity, l.basename, l.line, l.tid.toNat, l.time⟩

def Receiver.isSink : Receiver → Bool
  | .sink _ | .ownSink => true
  | _ => false

/-- `ToString` makes of what a sink is sent the line that a log file is given, but for its `\n`. -/
def Reproduces (prefixFlags : PrefixFlags) (l : Logged) (buf : LogStreamBuf) (insertions : List Text) : Prop :=
  ∀ (flags : Flags) (throws : Event → Bool) (sendMethod : SendMethod) (pointer firstFatal : Bool) (file : Severity)
    (sink : Receiver) (start length start' length' : Nat) (d : LogMessageData),
    d = filled prefixFlags l.info sendMethod pointer firstFatal buf insertions →
      .send (.logfile file) start length ∈ (flush flags throws d).events →
        .send sink start' length' ∈ (flush flags throws d).events → sink.isSink = true →
          slice (edited d).buf.text start length =
            logSinkToString prefixFlags.logYearInPrefix l (slice (edited d).buf.text start' length') ++ ['\n']

section
variable {prefixFlags : PrefixFlags} {l : Logged} {logYearInPrefix : Bool} {threadId : Int} {items : List Item}

/-! ### The prefix -/

/-- What stands before and behind the number of the thread. -/
def beforeThread (logYearInPrefix : Bool) (l : Logged) : Text :=
  l.severity.name.take 1 ++ (if logYearInPrefix then setw 4 (decimal (1900 + l.time.year)) else []) ++
    setw 2 (decimal (1 + l.time.month)) ++ setw 2 (decimal l.time.day) ++ ' ' :: setw 2 (decimal l.time.hour) ++
    ':' :: setw 2 (decimal l.time.min) ++ ':' :: setw 2 (decimal l.time.sec) ++ '.' :: setw 6 (decimal l.time.usec) ++ [' ']

def behindThread (l : Logged) : Text := ' ' :: l.basename ++ ':' :: decimal l.line ++ "] ".toList

theorem output_lineItems : output '0' 0 (lineItems logYearInPrefix l threadId ++ items) =
    beforeThread logYearInPrefix l ++ (padLeft 5 (decimal threadId) ++ (behindThread l ++ output '0' 0 items)) := by
  have hzeros : ∀ width text, pad '0' width text = setw width text := fun _ _ => rfl
  have hspaces : ∀ width text, pad ' ' width text = padLeft width text := fun _ _ => rfl
  have hnone : ∀ text, setw 0 text = text := fun _ => pad_zero
  cases logYearInPrefix <;> simp [lineItems, beforeThread, behindThread, hzeros, hspaces, hnone]

theorem initPrefix_eq : initPrefix logYearInPrefix l =
    beforeThread logYearInPrefix l ++ (padLeft 5 (decimal l.tid.toNat) ++ behindThread l) := by
  have houtput := @output_lineItems l logYearInPrefix l.tid.toNat []
  rwa [List.append_nil, output_nil, List.append_nil] at houtput

theorem logSinkToString_eq (message : Text) : logSinkToString logYearInPrefix l message =
    beforeThread logYearInPrefix l ++ (padLeft 5 (decimal l.tid.toInt) ++ behindThread l) ++ message := by
  rw [logSinkToString, output_lineItems]
  simp

/-- What `Init` streams is the prefix of the message. -/
theorem messagePrefix_eq (hlog : prefixFlags.logPrefix = true) (hdefault : prefixFlags.customPrefixCallback = none)
    (hline : l.line ≠ kNoLogPrefix) : messagePrefix prefixFlags l.info = initPrefix prefixFlags.logYearInPrefix l := by
  rw [messagePrefix, if_pos ⟨hlog, hline⟩, hdefault, initPrefix_eq]
  simp [defaultPrefix, beforeThread, behindThread, Logged.info]

end

/-! ### The number of the thread -/

section
variable {old before behind : Text} {tid : BitVec 32} {n : Nat}

theorem minus_notMem_toDigits : '-' ∉ Nat.toDigits 10 n := fun h =>
  absurd (Nat.isDigit_of_mem_toDigits (by decide) (by decide) h) (by decide)

theorem decimal_of_neg (h : tid.toInt < 0) : ∃ n ≤ 2 ^ 31, decimal tid.toInt = '-' :: Nat.toDigits 10 n := by
  have hge : -2 ^ 31 ≤ tid.toInt := BitVec.le_toInt tid
  cases htid : tid.toInt with
  | ofNat n =>
    rw [htid] at h
    exact absurd h (Int.not_lt.mpr (Int.natCast_nonneg n))
  | negSucc n =>
    rw [htid] at hge
    exact ⟨n + 1, by omega, rfl⟩

theorem toNat_of_neg (h : tid.toInt < 0) : 2 ^ 31 ≤ tid.toNat := by
  rw [BitVec.toInt_eq_toNat_cond] at h
  split at h <;> omega

theorem toInt_of_nonneg (h : 0 ≤ tid.toInt) : tid.toInt = tid.toNat := by
  have hlt := tid.isLt
  rw [BitVec.toInt_eq_toNat_cond] at h ⊢
  split at h <;> omega

/-- A negative number is longer by one at most than the one that is printed without its sign, and has a sign. -/
theorem padLeft_of_neg (h : tid.toInt < 0) :
    (padLeft 5 (decimal tid.toInt)).length ≤ (padLeft 5 (decimal tid.toNat)).length + 1 ∧
      (padLeft 5 (decimal tid.toInt)).count '-' = 1 ∧ (padLeft 5 (decimal tid.toNat)).count '-' = 0 := by
  obtain ⟨n, hn, hsigned⟩ := decimal_of_neg h
  have hunsigned : decimal tid.toNat = Nat.toDigits 10 tid.toNat := rfl
  have hge := toNat_of_neg h
  have hlong : ¬ (Nat.toDigits 10 tid.toNat).length ≤ 9 := by
    rw [Nat.length_toDigits_le_iff (by decide) (by decide)]
    omega
  have hshort : (Nat.toDigits 10 n).length ≤ 10 := by
    rw [Nat.length_toDigits_le_iff (by decide) (by decide)]
    omega
  have hpadded : ∀ text, padLeft 5 text = pad ' ' 5 text := fun _ => rfl
  rw [hpadded, hpadded, length_pad, length_pad, count_pad (by decide), count_pad (by decide), hsigned, hunsigned,
    List.count_cons_self, List.count_eq_zero.mpr minus_notMem_toDigits, List.count_eq_zero.mpr minus_notMem_toDigits,
      List.length_cons]
  exact ⟨by omega, rfl, rfl⟩

/-- The two prefixes, the one behind what is in the buffer already. -/
theorem prefixes_eq_iff {c : Char} {rest : Text} (hhead : before = c :: rest) (hc : c ≠ '-') :
    old ++ (before ++ (padLeft 5 (decimal tid.toNat) ++ behind)) = before ++ (padLeft 5 (decimal tid.toInt) ++ behind) ↔
      0 ≤ tid.toInt ∧ old = [] := by
  constructor
  · intro heq
    have hlength := congrArg List.length heq
    have hcount := congrArg (List.count '-') heq
    simp only [List.length_append] at hlength
    simp only [List.count_append] at hcount
    rcases Int.lt_or_le tid.toInt 0 with hneg | hnonneg
    · -- the sign would be what stands before the prefix
      obtain ⟨hlonger, hsign, hnone⟩ := padLeft_of_neg hneg
      have hmem : '-' ∈ old := List.count_pos_iff.mp (by omega)
      obtain ⟨a, rfl⟩ : ∃ a, old = [a] := List.length_eq_one_iff.mp (by
        have hpos := List.length_pos_of_mem hmem
        omega)
      obtain rfl := List.mem_singleton.mp hmem
      rw [hhead] at heq
      exact absurd (List.cons.inj heq).1.symm hc
    · refine ⟨hnonneg, List.length_eq_zero_iff.mp ?_⟩
      rw [toInt_of_nonneg hnonneg] at hlength
      omega
  · rintro ⟨hnonneg, rfl⟩
    rw [toInt_of_nonneg hnonneg, List.nil_append]

end

/-! ### The line and the body -/

section
variable {q t : Text}

/-- Behind a prefix that ends in a space the text is handed to the sinks, and to the log with a `\n`. -/
theorem line_and_body (hq : q.getLast? = some ' ') (hfits : (q ++ t).length ≤ capacity) :
    ∃ u, lineOf q t = q ++ u ++ ['\n'] ∧ bodyOf q t = u := by
  have htake : (q ++ t).take capacity = q ++ t := List.take_of_length_le hfits
  have hmin : min capacity q.length = q.length := by
    rw [List.length_append] at hfits
    omega
  have hbody : ∀ u, lineOf q t = q ++ u ++ ['\n'] → bodyOf q t = u := by
    intro u hline
    rw [bodyOf, hline, hmin, List.append_assoc, List.drop_left, List.dropLast_concat]
  by_cases hlast : (q ++ t).getLast? = some '\n'
  · rcases List.eq_nil_or_concat t with rfl | ⟨u, c, rfl⟩
    · rw [List.append_nil, hq] at hlast
      cases hlast
    · rw [List.concat_eq_append, ← List.append_assoc, List.getLast?_concat] at hlast
      obtain rfl := Option.some.inj hlast
      have hline : lineOf q (u.concat '\n') = q ++ u ++ ['\n'] := by
        rw [lineOf, htake, List.concat_eq_append, ← List.append_assoc, withNewline, if_pos List.getLast?_concat]
      exact ⟨u, hline, hbody u hline⟩
  · have hline : lineOf q t = q ++ t ++ ['\n'] := by rw [lineOf, htake, withNewline, if_neg hlast]
    exact ⟨t, hline, hbody t hline⟩

end

/-! ### The exact condition -/

section
variable {prefixFlags : PrefixFlags} {l : Logged} {buf : LogStreamBuf} {insertions : List Text}

theorem beforeThread_head (logYearInPrefix : Bool) (l : Logged) :
    ∃ c rest, beforeThread logYearInPrefix l = c :: rest ∧ c ≠ '-' := by
  obtain ⟨c, hname, hc⟩ : ∃ c, l.severity.name.take 1 = [c] ∧ c ≠ '-' := by
    cases l.severity
    · exact ⟨'I', rfl, by decide⟩
    · exact ⟨'W', rfl, by decide⟩
    · exact ⟨'E', rfl, by decide⟩
    · exact ⟨'F', rfl, by decide⟩
  rw [beforeThread, hname]
  simp only [List.append_assoc, List.singleton_append]
  exact ⟨c, _, rfl, hc⟩

theorem initPrefix_last (logYearInPrefix : Bool) (l : Logged) (old : Text) :
    (old ++ initPrefix logYearInPrefix l).getLast? = some ' ' := by
  have hend : behindThread l = (' ' :: l.basename ++ ':' :: decimal l.line ++ [']']) ++ [' '] := by
    simp [behindThread]
  rw [initPrefix_eq, hend]
  simp only [← List.append_assoc, List.getLast?_concat]

/-- The files are given what the buffer has held before, the prefix and the text; the sinks are given the text. -/
theorem delivered_behind {q t : Text} {d : LogMessageData} {flags : Flags} {throws : Event → Bool}
    (hstored : d.buf.stored = q ++ t)
    (hprefixed : d.numPrefixChars = q.length) (hq : q.getLast? = some ' ') (hfits : (q ++ t).length ≤ capacity) :
    Delivered (lineOf q t) (bodyOf q t) d (flush flags throws d) := by
  have htake : (q ++ t).take capacity = q ++ t := List.take_of_length_le hfits
  have hpcount : d.buf.pcount = q.length + t.length := by rw [pcount_eq, hstored, List.length_append]
  have hnonempty : 0 < q.length := List.length_pos_iff.mpr fun hnil => by
    rw [hnil] at hq
    cases hq
  have hpos : 0 < d.buf.pcount := by omega
  rw [List.length_append] at hfits
  refine delivered_of_lt hpos (numPrefixChars_lt hpos (by omega) fun hlast => ?_) ?_ (by omega)
  · -- a text that ends in a newline is not only the prefix
    rcases List.eq_nil_or_concat t with rfl | ⟨u, c, rfl⟩
    · rw [hstored, List.append_nil, hq] at hlast
      cases hlast
    · rw [List.concat_eq_append, List.length_append, List.length_singleton] at hpcount
      omega
  · rw [hstored, lineOf, htake]

/-- What both formatters print is the same exactly if their prefixes are. -/
theorem reproduces_iff_prefixes (hlog : prefixFlags.logPrefix = true) (hdefault : prefixFlags.customPrefixCallback = none)
    (hbacktrace : backtrace prefixFlags l.info = []) (hline : l.line ≠ kNoLogPrefix)
    (hfits : (buf.stored ++ messagePrefix prefixFlags l.info ++ insertions.flatten).length ≤ capacity) :
    Reproduces prefixFlags l buf insertions ↔ buf.stored ++ initPrefix prefixFlags.logYearInPrefix l =
      beforeThread prefixFlags.logYearInPrefix l ++ (padLeft 5 (decimal l.tid.toInt) ++ behindThread l) := by
  rw [messagePrefix_eq hlog hdefault hline] at hfits
  have hlast := initPrefix_last prefixFlags.logYearInPrefix l buf.stored
  have hprinted : ∀ sendMethod pointer firstFatal,
      (filled prefixFlags l.info sendMethod pointer firstFatal buf insertions).buf.stored =
        buf.stored ++ initPrefix prefixFlags.logYearInPrefix l ++ insertions.flatten := by
    intro sendMethod pointer firstFatal
    rw [stored_filled, messageText, hbacktrace, List.nil_append, messagePrefix_eq hlog hdefault hline,
      List.take_of_length_le hfits]
  have hprefixed : ∀ sendMethod pointer firstFatal,
      (filled prefixFlags l.info sendMethod pointer firstFatal buf insertions).numPrefixChars =
        (buf.stored ++ initPrefix prefixFlags.logYearInPrefix l).length := by
    intro sendMethod pointer firstFatal
    rw [List.length_append] at hfits
    rw [numPrefixChars_filled, messagePrefix_eq hlog hdefault hline]
    omega
  obtain ⟨u, hfile, hbody⟩ := line_and_body hlast hfits
  constructor
  · intro h
    have hdelivered := @delivered_behind _ _ _ sinkFlags (fun _ => false) (hprinted .sendToLog false false)
      (hprefixed .sendToLog false false) hlast hfits
    have hmethod : (filled prefixFlags l.info .sendToLog false false buf insertions).sendMethod = .sendToLog := by
      rw [filled_eq]
      rfl
    have hdue : isDue sinkFlags (filled prefixFlags l.info .sendToLog false false buf insertions) = true :=
      isDue_filled _ (severity_nonneg _)
    obtain ⟨hfiles, hsinks⟩ :=
      mem_send_sinkFlags (d := edited (filled prefixFlags l.info .sendToLog false false buf insertions)) hmethod
    have hfiles' := @mem_flush_of_send sinkFlags (fun _ => false) _ hdue (fun _ => rfl) _ hfiles
    have hsinks' := @mem_flush_of_send sinkFlags (fun _ => false) _ hdue (fun _ => rfl) _ hsinks
    have hsame := h sinkFlags (fun _ => false) .sendToLog false false _ _ _ _ _ _ _ rfl hfiles' hsinks' rfl
    rw [hdelivered.toLog _ _ _ rfl hfiles', hdelivered.toBody _ _ _ rfl hsinks', hfile, hbody, logSinkToString_eq] at hsame
    exact List.append_cancel_right (List.append_cancel_right hsame)
  · rintro hprefixes flags throws sendMethod pointer firstFatal file sink start length start' length' d rfl
      hfiles hsinks hsink
    have htakes : sink.takesBody = true := by
      cases sink <;> first | rfl | cases hsink
    have hdelivered := @delivered_behind _ _ _ flags throws (hprinted sendMethod pointer firstFatal)
      (hprefixed sendMethod pointer firstFatal) hlast hfits
    rw [hdelivered.toLog _ _ _ rfl hfiles, hdelivered.toBody _ _ _ htakes hsinks, hfile, hbody,
      logSinkToString_eq, hprefixes]

/-- `ToString` reproduces the line of the log file exactly if the thread's id is not negative, and the buffer has been
empty before the prefix was streamed, as it is unless a static storage is used again. -/
theorem reproduces_iff (hlog : prefixFlags.logPrefix = true) (hdefault : prefixFlags.customPrefixCallback = none)
    (hbacktrace : backtrace prefixFlags l.info = []) (hline : l.line ≠ kNoLogPrefix)
    (hfits : (buf.stored ++ messagePrefix prefixFlags l.info ++ insertions.flatten).length ≤ capacity) :
    Reproduces prefixFlags l buf insertions ↔ 0 ≤ l.tid.toInt ∧ buf.pcount = 0 := by
  obtain ⟨c, rest, hhead, hc⟩ := beforeThread_head prefixFlags.logYearInPrefix l
  rw [reproduces_iff_prefixes hlog hdefault hbacktrace hline hfits, initPrefix_eq, prefixes_eq_iff hhead hc, pcount_eq,
    List.length_eq_zero_iff]

end

/-! ### A number beyond the range of `int` -/

def loggedIn (tid : BitVec 32) : Logged := ⟨.info, ['f'], 1, ⟨100, 0, 1, 0, 0, 0, 0⟩, tid⟩

def prefixed : PrefixFlags := { plainPrefixFlags with logPrefix := true }

theorem reproduces_seven : Reproduces prefixed (loggedIn 7) (.new fun _ => ' ') [['a']] :=
  (reproduces_iff rfl rfl rfl (by decide) (by decide)).mpr ⟨by decide, rfl⟩

/-- The prefix of the log file has 2147483649, and `ToString` has -2147483647. -/
theorem not_reproduces : ¬ ∀ (prefixFlags : PrefixFlags) (l : Logged) (text : Nat → Char) (insertions : List Text),
    prefixFlags.logPrefix = true → prefixFlags.customPrefixCallback = none → backtrace prefixFlags l.info = [] →
      l.line ≠ kNoLogPrefix →
        ((LogStreamBuf.new text).stored ++ messagePrefix prefixFlags l.info ++ insertions.flatten).length ≤ capacity →
          Reproduces prefixFlags l (.new text) insertions := fun h => by
  have hreproduces := h prefixed (loggedIn 0x80000001) (fun _ => ' ') [['a']] rfl rfl rfl (by decide) (by decide)
  rw [reproduces_iff_prefixes rfl rfl rfl (by decide) (by decide)] at hreproduces
  exact absurd hreproduces (by decide)

end Glog.LogMessage
