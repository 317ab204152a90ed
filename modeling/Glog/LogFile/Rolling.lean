import Glog.LogFile.Destination

/-! # Rolling by the day or by the hour

The time of an open file is kept in the zone that its name is made in, but it is compared with the local time.
The two agree as long as local time and UTC are in the same period. -/

namespace Glog.LogFile

/-- The period of a time-based policy. -/
def samePeriod : Policy → Tm → Tm → Bool
  | .day => sameDay
  | .hour => sameHour
  | .size | .other => fun _ _ => true

theorem samePeriod_refl (policy : Policy) (a : Tm) : samePeriod policy a a = true := by
  cases policy <;> simp [samePeriod, sameHour, sameDay]

theorem samePeriod_trans {policy : Policy} {a b c : Tm} (h : samePeriod policy a b = true)
    (h' : samePeriod policy b c = true) :
    samePeriod policy a c = true := by
  cases policy <;> simp_all [samePeriod, sameHour, sameDay]

section
variable {cfg : Config} {env : Env} {timestamp : Int} {o o' : LogFileObject} {p : Process}

theorem checkNeedRollLogFiles_eq (hpolicy : cfg.policy = .day ∨ cfg.policy = .hour) :
    checkNeedRollLogFiles cfg env timestamp o p = (!samePeriod cfg.policy (cfg.localtime timestamp) o.tmTime, p) := by
  unfold checkNeedRollLogFiles
  rcases hpolicy with h | h <;> rw [h] <;> rfl

/-! ### When a file is closed -/

/-- A `Write` closes a file only to roll it. -/
theorem need_of_closed {force : Bool} {message : Text}
    (h : (write cfg env force timestamp message o p).1.closed ≠ o.closed) :
    (checkNeedRollLogFiles cfg env timestamp o p).1 = true := by
  by_cases hbase : o.baseFilenameSelected ∧ o.baseFilename = []
  · rw [write, if_pos hbase] at h
    exact absurd rfl h
  · rw [write_closed cfg env hbase] at h
    cases hneed : (checkNeedRollLogFiles cfg env timestamp o p).1 with
    | true => rfl
    | false =>
      rw [hneed] at h
      exact absurd rfl h

theorem closed_of_need {force : Bool} {message : Text} {h : Handle}
    (hbase : ¬ (o.baseFilenameSelected ∧ o.baseFilename = [])) (hfile : o.file = some h)
    (hneed : (checkNeedRollLogFiles cfg env timestamp o p).1 = true) :
    (write cfg env force timestamp message o p).1.closed ≠ o.closed := by
  rw [write_closed cfg env hbase, hneed]
  change o.closed ++ o.file.toList ≠ o.closed
  rw [hfile]
  simp

/-! ### The time of the open file -/

/-- The stored time is that of the `Write` that opened the file, in the zone of the name. -/
def Stamped (cfg : Config) (o : LogFileObject) : Prop := ∀ h, o.file = some h → o.tmTime = namingTime cfg h.timestamp

theorem stamped_of_none (h : o.file = none) : Stamped cfg o := fun h' hfile => by
  rw [h] at hfile
  cases hfile

theorem Stamped.of_eq (h : Stamped cfg o) (hfile : o'.file = o.file) (htime : o'.tmTime = o.tmTime) : Stamped cfg o' :=
  fun h' hnew => by
    rw [htime]
    exact h h' (hfile.symm.trans hnew)

theorem appendChunk_stamped (c : Chunk) (h : Stamped cfg o) : Stamped cfg (appendChunk env c o) := fun h' hnew => by
  obtain ⟨h₀, hfile, rfl⟩ := Option.map_eq_some_iff.mp hnew
  exact h h₀ hfile

theorem countBytes_stamped (length : Nat) (h : Stamped cfg o) : Stamped cfg (countBytes length o) := h

theorem writeHeader_stamped (tm : Tm) (h : Stamped cfg o) : Stamped cfg (writeHeader cfg env tm o) := by
  unfold writeHeader
  split
  · generalize fileHeader cfg env o.startTime tm = header
    exact countBytes_stamped _ (appendChunk_stamped (.header header) h)
  · exact h

theorem makeFile_stamped (hfile : o.file = none) : Stamped cfg (makeFile cfg env timestamp o p).2.1 := by
  rcases makeFile_cases cfg env timestamp o p with ⟨-, heq⟩ | ⟨-, made, o', p', -, hattempt, heq⟩
  · rw [heq]
    exact stamped_of_none hfile
  · rw [heq]
    obtain ⟨l, rs, hpruned⟩ := pruned_eq cfg env timestamp o
    rw [hpruned] at hattempt
    cases hattempt with
    | failed base paths _ => exact stamped_of_none hfile
    | success base paths path name inode isNew _ =>
      refine writeHeader_stamped _ fun h' hnew => ?_
      cases hnew
      rfl

/-- Under a time-based policy no history file is opened. -/
theorem reopenHistory_of_time (hpolicy : cfg.policy = .day ∨ cfg.policy = .hour) :
    reopenHistory cfg env timestamp o = o := by
  unfold reopenHistory
  rw [if_neg]
  rintro ⟨-, -, hsize⟩
  rw [hsize] at hpolicy
  rcases hpolicy with h | h <;> cases h

theorem prepare_stamped (hpolicy : cfg.policy = .day ∨ cfg.policy = .hour) (h : Stamped cfg o) :
    Stamped cfg (prepare cfg env timestamp o p).2.1 := by
  unfold prepare
  dsimp only
  rw [reopenHistory_of_time hpolicy]
  split
  · rename_i hfile
    rw [Option.isNone_iff_eq_none] at hfile
    exact makeFile_stamped hfile
  · unfold rollIfNeeded
    split
    · exact stamped_of_none rfl
    · exact h

theorem flush_tmTime (now : Int) : (flush cfg now o).tmTime = o.tmTime := by
  unfold flush
  dsimp only
  split <;> rfl

theorem dropLogMemory_tmTime : (dropLogMemory cfg o).tmTime = o.tmTime := by
  unfold dropLogMemory
  split <;> rfl

theorem writeMessage_stamped {force : Bool} {message : Text} (h : Stamped cfg o) :
    Stamped cfg (writeMessage cfg env force message o p).1 := by
  have happended : Stamped cfg (appendChunk env (.message message) o) := appendChunk_stamped _ h
  have hcounted := countBytes_stamped message.length happended
  unfold writeMessage
  split
  · exact h
  · dsimp only
    split
    · exact happended
    · split
      · have hflushed := hcounted.of_eq (flush_file cfg env.now _) (flush_tmTime env.now)
        exact hflushed.of_eq (dropLogMemory_file cfg _) dropLogMemory_tmTime
      · exact hcounted

theorem write_stamped {force : Bool} {message : Text} (hpolicy : cfg.policy = .day ∨ cfg.policy = .hour)
    (h : Stamped cfg o) :
    Stamped cfg (write cfg env force timestamp message o p).1 := by
  have hprepared : Stamped cfg (prepare cfg env timestamp o p).2.1 := prepare_stamped hpolicy h
  unfold write
  split
  · exact h
  · dsimp only
    split
    · exact writeMessage_stamped hprepared
    · exact hprepared

end

theorem step_stamped {cfg : Config} {o : LogFileObject} (op : Op) (hpolicy : cfg.policy = .day ∨ cfg.policy = .hour)
    (h : Stamped cfg o) : Stamped cfg (step cfg o op) := by
  cases op with
  | write env p force timestamp message => exact write_stamped hpolicy h
  | flush now => exact h.of_eq (flush_file cfg now o) (flush_tmTime now)
  | setBasename basename =>
    unfold step setBasename
    dsimp only
    split
    · split
      · exact stamped_of_none rfl
      · exact h
    · exact h
  | setExtension ext =>
    unfold step setExtension
    dsimp only
    split
    · split
      · exact stamped_of_none rfl
      · exact h
    · exact h
  | setSymlinkBasename basename => exact h

/-! ### The first file of a run -/

section
variable {cfg : Config} {env : Env} {timestamp : Int} {o o' : LogFileObject} {p : Process}

/-- The open file has been opened at this time. -/
def OpenedAt (timestamp : Int) (o : LogFileObject) : Prop := ∃ h, o.file = some h ∧ h.timestamp = timestamp

theorem appendChunk_openedAt (c : Chunk) (h : OpenedAt timestamp o) : OpenedAt timestamp (appendChunk env c o) := by
  obtain ⟨h, hfile, htime⟩ := h
  refine ⟨{ h with written := h.written ++ [c.take (env.taken c)] }, ?_, htime⟩
  rw [appendChunk, hfile, Option.map_some]

theorem writeHeader_openedAt (tm : Tm) (h : OpenedAt timestamp o) : OpenedAt timestamp (writeHeader cfg env tm o) := by
  unfold writeHeader
  split
  · generalize fileHeader cfg env o.startTime tm = header
    exact appendChunk_openedAt (.header header) h
  · exact h

/-- A `Write` without a file, where one can be created, opens it. -/
theorem write_openedAt {force : Bool} {message : Text} (hpolicy : cfg.policy = .day ∨ cfg.policy = .hour)
    (hopen : AllOpen env) (hfile : o.file = none) (hattempt : o.rolloverAttempt + 1 = kRolloverAttemptFrequency)
    (hselected : o.baseFilenameSelected = true) (hbase : o.baseFilename ≠ []) :
    OpenedAt timestamp (write cfg env force timestamp message o p).1 := by
  have hdest : HasDestination cfg o := by
    rw [HasDestination, if_pos hselected]
    exact hbase
  have hrolled : ∀ need, (rollIfNeeded need o).file.isNone = true ∧
      (rollIfNeeded need o).rolloverAttempt + 1 = kRolloverAttemptFrequency ∧ HasDestination cfg (rollIfNeeded need o) := by
    intro need
    cases need with
    | true => exact ⟨rfl, rfl, hdest⟩
    | false => exact ⟨Option.isNone_iff_eq_none.mpr hfile, hattempt, hdest⟩
  have hprepared : (prepare cfg env timestamp o p).1 = true ∧ OpenedAt timestamp (prepare cfg env timestamp o p).2.1 := by
    obtain ⟨hnone, hattempt, hdest⟩ := hrolled (checkNeedRollLogFiles cfg env timestamp o p).1
    unfold prepare
    dsimp only
    rw [reopenHistory_of_time hpolicy, if_pos hnone]
    obtain ⟨f, o', p', hsuccess, heq⟩ := makeFile_success cfg env hopen timestamp
      (checkNeedRollLogFiles cfg env timestamp o p).2 hdest hattempt
    rw [heq]
    refine ⟨rfl, writeHeader_openedAt _ ?_⟩
    cases hsuccess with
    | success base paths path name inode isNew _ => exact ⟨_, rfl, rfl⟩
  rw [write, if_neg (fun hc => hbase hc.2)]
  dsimp only
  rw [if_pos hprepared.1]
  rcases writeMessage_cases cfg env force message (prepare cfg env timestamp o p).2.1 (prepare cfg env timestamp o p).2.2
    with ⟨-, heq⟩ | ⟨-, heq, -⟩
  · rw [heq]
    exact hprepared.2
  · rw [OpenedAt, heq]
    exact appendChunk_openedAt _ hprepared.2

end

/-- In every run a `Write` closes the open file only in another period than that of the `Write` that opened it,
    in the zone of the names. -/
def RollsAtBoundaries (cfg : Config) : Prop :=
  ∀ (severity : Severity) (base : Option Text) (now : Int) (tm : Tm) (o : LogFileObject),
    Run.Reaches (step cfg) (fun _ _ => True) (.new cfg severity base now tm) o →
      ∀ (env : Env) (p : Process) (force : Bool) (timestamp : Int) (message : Text) (h : Handle), o.file = some h →
        (write cfg env force timestamp message o p).1.closed ≠ o.closed →
          samePeriod cfg.policy (namingTime cfg timestamp) (namingTime cfg h.timestamp) = false

theorem samePeriod_of_naming {cfg : Config}
    (hzones : cfg.utcTime = true → ∀ t, samePeriod cfg.policy (cfg.localtime t) (cfg.gmtime t) = true)
    (t : Int) : samePeriod cfg.policy (cfg.localtime t) (namingTime cfg t) = true := by
  unfold namingTime
  split
  · rename_i hutc
    exact hzones hutc t
  · exact samePeriod_refl cfg.policy _

/-- The files roll at the boundaries of the periods exactly where the names are made in local time, or local
    time and UTC are always in the same period. -/
theorem rollsAtBoundaries_iff {cfg : Config} (hpolicy : cfg.policy = .day ∨ cfg.policy = .hour) :
    RollsAtBoundaries cfg ↔ (cfg.utcTime = true → ∀ t, samePeriod cfg.policy (cfg.localtime t) (cfg.gmtime t) = true) := by
  refine ⟨fun hrolls hutc t => ?_,
    fun hzones severity base now tm o hrun env p force timestamp message h hfile hclosed => ?_⟩
  · -- Two messages at the same time: the second one must not roll.
    have hreached :
        Run.Reaches (step cfg) (fun _ _ => True) (plainObject cfg) (step cfg (plainObject cfg) (plainWrite t [])) :=
      Run.Reaches.start.next _ trivial
    have hopen : AllOpen plainEnv := fun _ _ => ⟨1, true, rfl⟩
    have hopened : OpenedAt t (step cfg (plainObject cfg) (plainWrite t [])) :=
      write_openedAt hpolicy hopen rfl rfl rfl nofun
    obtain ⟨h, hfile, rfl⟩ := hopened
    have hstart : Stamped cfg (plainObject cfg) := stamped_of_none rfl
    have hstamped := step_stamped (plainWrite h.timestamp []) hpolicy hstart h hfile
    have hdirected : Directed (fun _ => True) (plainObject cfg) (step cfg (plainObject cfg) (plainWrite h.timestamp [])) :=
      write_directed (fun _ _ => trivial) fun _ _ _ _ _ => Or.inl trivial
    cases hsame : samePeriod cfg.policy (cfg.localtime h.timestamp) (cfg.gmtime h.timestamp) with
    | true => rfl
    | false =>
      have hnaming : namingTime cfg h.timestamp = cfg.gmtime h.timestamp := if_pos hutc
      have hneed : (checkNeedRollLogFiles cfg plainEnv h.timestamp
          (step cfg (plainObject cfg) (plainWrite h.timestamp [])) plainProcess).1 = true := by
        rw [checkNeedRollLogFiles_eq hpolicy, hstamped, hnaming, hsame]
        rfl
      have hbase : ¬ ((step cfg (plainObject cfg) (plainWrite h.timestamp [])).baseFilenameSelected ∧
          (step cfg (plainObject cfg) (plainWrite h.timestamp [])).baseFilename = []) := by
        rw [hdirected.base rfl]
        exact fun hc => List.cons_ne_nil _ _ hc.2
      have hdiffer := hrolls .info (some ['a']) 0 (plainTm 0) _ hreached plainEnv plainProcess false h.timestamp [] h hfile
        (closed_of_need hbase hfile hneed)
      rw [samePeriod_refl] at hdiffer
      cases hdiffer
  · have hstamped : Stamped cfg o := hrun.invariant (stamped_of_none rfl) fun t op ht _ => step_stamped op hpolicy ht
    have hneed := need_of_closed hclosed
    rw [checkNeedRollLogFiles_eq hpolicy, hstamped h hfile] at hneed
    cases hsame : samePeriod cfg.policy (namingTime cfg timestamp) (namingTime cfg h.timestamp) with
    | false => rfl
    | true =>
      rw [samePeriod_trans (samePeriod_of_naming hzones timestamp) hsame] at hneed
      cases hneed

theorem rollsAtBoundaries_iff_plain : RollsAtBoundaries plainConfig ↔
    (plainConfig.utcTime = true → ∀ t,
      samePeriod plainConfig.policy (plainConfig.localtime t) (plainConfig.gmtime t) = true) :=
  rollsAtBoundaries_iff (Or.inl rfl)

/-- The names are made in UTC, and local time is a day ahead. -/
def aheadConfig : Config := { plainConfig with utcTime := true, localtime := fun t => plainTm (t + 1) }

/-- Two messages with the same timestamp, and the second one rolls. -/
theorem not_rollsAtBoundaries : ¬ ∀ cfg : Config, cfg.policy = .day ∨ cfg.policy = .hour → RollsAtBoundaries cfg :=
  fun h => by
  have hreached : Run.Reaches (step aheadConfig) (fun _ _ => True) (plainObject aheadConfig)
      (step aheadConfig (plainObject aheadConfig) (plainWrite 0 [])) := Run.Reaches.start.next _ trivial
  have hdiffer :=
    h aheadConfig (Or.inl rfl) .info (some ['a']) 0 (plainTm 0) _ hreached plainEnv plainProcess false 0 [] _ rfl
    (by decide)
  exact absurd hdiffer (by decide)

end Glog.LogFile
