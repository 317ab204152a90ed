import Glog.LogFile.Counters
import Glog.LogFile.Dispatch

/-! # Bytes since the last flush

`bytes_since_flush_` is raised by a header and by a message, and a message is followed by the test whether to flush. The
counter is at least what has been written to the open file since its last flush: it is carried over when the file is
closed by a change of its name, and only then more than that.

It is a `uint32` that takes the length of a header as it is. A header holds the fingerprint of the application, which may
be of any length. -/

namespace Glog.LogFile
open Run

/-- An object, with how much of the open file had been written at its last flush. -/
structure Stream where
  object : LogFileObject
  flushed : Nat

/-- What has been written to the open file since. -/
def Stream.unflushed (s : Stream) : Nat := openSize s.object - s.flushed

/-- A file that is open stays so. -/
def stillFlushed (o : LogFileObject) (flushed : Nat) : Nat := if o.file.isSome then flushed else 0

/-- What a `Write` leaves flushed of the file that is open then. -/
def flushedByWrite (cfg : Config) (env : Env) (p : Process) (forceFlush : Bool) (timestamp : Int) (message : Text)
    (s : Stream) :
    Nat :=
  let r := prepare cfg env timestamp s.object p
  if r.1 && counts cfg env r.2.2 && flushes env forceFlush message r.2.1 then
    openSize (write cfg env forceFlush timestamp message s.object p).1
  else stillFlushed (rolled cfg env timestamp s.object p) s.flushed

def Stream.step (cfg : Config) (s : Stream) (op : Op) : Stream where
  object := LogFile.step cfg s.object op
  flushed :=
    match op with
    | .write env p forceFlush timestamp message =>
      if s.object.baseFilenameSelected ∧ s.object.baseFilename = [] then s.flushed
      else flushedByWrite cfg env p forceFlush timestamp message s
    | .flush _ => openSize s.object
    | .setBasename basename => stillFlushed (setBasename basename s.object) s.flushed
    | .setExtension ext => stillFlushed (setExtension ext s.object) s.flushed
    | .setSymlinkBasename _ => s.flushed

/-- The counter is not below what it counts. -/
def Accounted (s : Stream) : Prop := s.unflushed ≤ s.object.bytesSinceFlush

/-- A `Write` appends its message. -/
def Appends (cfg : Config) (env : Env) (timestamp : Int) (o : LogFileObject) (p : Process) : Prop :=
  Writes cfg env timestamp o p ∧ counts cfg env (prepare cfg env timestamp o p).2.2 = true

/-- What a `Write` does to the counter: neither sum overflows, and behind a message that has been appended the counter is
    below a million, and zero if the flush was forced. -/
structure WriteAccount (cfg : Config) (env : Env) (p : Process) (forceFlush : Bool) (timestamp : Int) (message : Text)
    (o : LogFileObject) : Prop where
  headerFits : ¬(o.baseFilenameSelected ∧ o.baseFilename = []) →
    (rolled cfg env timestamp o p).bytesSinceFlush + headerLength cfg env timestamp o p < 4294967296
  messageFits : Appends cfg env timestamp o p → (prepare cfg env timestamp o p).2.1.bytesSinceFlush +
    message.length < 4294967296
  below : Appends cfg env timestamp o p → (write cfg env forceFlush timestamp message o p).1.bytesSinceFlush < 1000000
  forced : Appends cfg env timestamp o p → forceFlush = true →
    (write cfg env forceFlush timestamp message o p).1.bytesSinceFlush = 0

def StepAccount (cfg : Config) (s : Stream) : Op → Prop
  | .write env p forceFlush timestamp message => WriteAccount cfg env p forceFlush timestamp message s.object
  | _ => True

/-- The counter is kept all along a run. -/
structure KeepsAccount (cfg : Config) (s : Stream) (ops : List Op) : Prop where
  accounted : Always (Stream.step cfg) Accounted s ops
  steps : Each (Stream.step cfg) (StepAccount cfg) s ops

/-- A message of at most 30000 bytes, while writing is not stopped. -/
def Ordinary : Op → Prop
  | .write _ p _ _ message => p.stopWriting = false ∧ message.length ≤ 30000
  | _ => True

/-- The counter has room for the header of a file that is made, and for the message. -/
def HasRoom (cfg : Config) (s : Stream) : Op → Prop
  | .write env p _ timestamp message =>
    ¬(s.object.baseFilenameSelected ∧ s.object.baseFilename = []) →
      (rolled cfg env timestamp s.object p).bytesSinceFlush + headerLength cfg env timestamp s.object p + message.length
        < 4294967296
  | _ => True

section
variable {cfg : Config} {env : Env} {o : LogFileObject} {p : Process} {force : Bool} {timestamp : Int} {message : Text}
  {s : Stream} {op : Op} {ops : List Op}

theorem openSize_of_file {o' : LogFileObject} (h : o'.file = o.file) : openSize o' = openSize o := by
  rw [openSize, h, openSize]

theorem bytesSinceFlush_flush {now : Int} (h : o.file.isSome) : (flush cfg now o).bytesSinceFlush = 0 := by
  unfold flush
  dsimp only
  rw [if_pos h]

theorem bytesSinceFlush_dropLogMemory : (dropLogMemory cfg o).bytesSinceFlush = o.bytesSinceFlush := by
  unfold dropLogMemory
  split <;> rfl

theorem rolled_cases : (rolled cfg env timestamp o p = o) ∨
    (rolled cfg env timestamp o p).file = none ∧ (rolled cfg env timestamp o p).bytesSinceFlush = 0 := by
  unfold rolled
  cases (checkNeedRollLogFiles cfg env timestamp o p).1 with
  | true => exact Or.inr ⟨rfl, rfl⟩
  | false => exact Or.inl rfl

/-- An ordinary `Write` that has a file appends its message, as writing is never stopped. -/
theorem appends_of_ordinary (hstop : cfg.stopLoggingIfFullDisk = false) (h : p.stopWriting = false)
    (hbase : ¬(o.baseFilenameSelected ∧ o.baseFilename = [])) (hprepared : (prepare cfg env timestamp o p).1 = true) :
    Appends cfg env timestamp o p := by
  refine ⟨⟨hbase, hprepared⟩, ?_⟩
  unfold counts
  rw [prepare_stopWriting, h, hstop]
  rfl

/-- Writing is never stopped while logging does not stop on a full disk. -/
theorem stopWriting_write (hstop : cfg.stopLoggingIfFullDisk = false) (h : p.stopWriting = false) :
    (write cfg env force timestamp message o p).2.stopWriting = false := by
  have hprepared : (prepare cfg env timestamp o p).2.2.stopWriting = false := prepare_stopWriting.trans h
  unfold write
  split
  · exact h
  · dsimp only
    split
    · unfold writeMessage
      rw [hprepared, if_neg Bool.false_ne_true]
      dsimp only
      rw [hstop, if_neg fun hfull => Bool.false_ne_true hfull.1]
      split <;> exact hprepared
    · exact hprepared

/-! ### One operation -/

/-- A `Write` that does not get to its message leaves the counter as the rolling does. -/
theorem write_failed (hbase : ¬(o.baseFilenameSelected ∧ o.baseFilename = [])) (hbytes : o.bytesSinceFlush < 1000000)
    (hprepared : (prepare cfg env timestamp o p).1 = false) :
    (write cfg env force timestamp message o p).1 = (prepare cfg env timestamp o p).2.1 ∧
      (write cfg env force timestamp message o p).1.bytesSinceFlush = (rolled cfg env timestamp o p).bytesSinceFlush ∧
      openSize (write cfg env force timestamp message o p).1 = 0 := by
  have hheaded : Headed cfg env timestamp o p := prepare_headed (by omega)
  obtain ⟨hfile, hheader⟩ := hheaded.failed hprepared
  have hwrite : (write cfg env force timestamp message o p).1 = (prepare cfg env timestamp o p).2.1 := by
    rw [write, if_neg hbase]
    dsimp only
    rw [if_neg (by rw [hprepared]; exact Bool.false_ne_true)]
  have hraised := hheaded.raised.bytesSinceFlush
  have hopened := hheaded.opened hfile
  have hrolled := @bytesSinceFlush_rolled_lt cfg env o p timestamp (by omega)
  rw [hheader] at hraised hopened
  rw [hwrite]
  exact ⟨rfl, by omega, by omega⟩

/-- The message of a `Write` that appends it, and the flush behind it. -/
theorem write_appended (happends : Appends cfg env timestamp o p) :
    (write cfg env force timestamp message o p).1 =
      if flushes env force message (prepare cfg env timestamp o p).2.1 then
        dropLogMemory cfg (flush cfg env.now (withMessage env message (prepare cfg env timestamp o p).2.1))
      else withMessage env message (prepare cfg env timestamp o p).2.1 := by
  obtain ⟨⟨hbase, hprepared⟩, hcounts⟩ := happends
  rw [write, if_neg hbase]
  dsimp only
  rw [if_pos hprepared, writeMessage_eq hcounts]

theorem bytesSinceFlush_withMessage : (withMessage env message o).bytesSinceFlush
    = (o.bytesSinceFlush + message.length) % 4294967296 := rfl

theorem withMessage_isSome (h : o.file.isSome) : (withMessage env message o).file.isSome := by
  exact appendChunk_isSome env h

/-- Behind a message the counter is below a million, and zero if the file has been flushed. -/
theorem bytesSinceFlush_write (happends : Appends cfg env timestamp o p) :
    (write cfg env force timestamp message o p).1.bytesSinceFlush < 1000000 ∧
      (flushes env force message (prepare cfg env timestamp o p).2.1 = true →
        (write cfg env force timestamp message o p).1.bytesSinceFlush = 0) := by
  have hfile := prepare_isSome cfg env happends.1.2
  rw [write_appended happends]
  by_cases hflushes : flushes env force message (prepare cfg env timestamp o p).2.1 = true
  · rw [if_pos hflushes, bytesSinceFlush_dropLogMemory, bytesSinceFlush_flush (withMessage_isSome hfile)]
    exact ⟨by decide, fun _ => rfl⟩
  · rw [if_neg hflushes]
    refine ⟨?_, fun h => absurd h hflushes⟩
    unfold flushes at hflushes
    rw [Bool.or_eq_true, Bool.or_eq_true, decide_eq_true_eq, not_or, not_or] at hflushes
    exact Nat.lt_of_not_ge hflushes.1.2

theorem flushedByWrite_of_flushes (happends : Appends cfg env timestamp s.object p)
    (h : flushes env force message (prepare cfg env timestamp s.object p).2.1 = true) :
    flushedByWrite cfg env p force timestamp message s = openSize (write cfg env force timestamp message s.object p).1 := by
  unfold flushedByWrite
  dsimp only
  rw [happends.1.2, happends.2, h]
  rfl

theorem flushedByWrite_of_not (h : (prepare cfg env timestamp s.object p).1 = false ∨
      flushes env force message (prepare cfg env timestamp s.object p).2.1 = false) :
    flushedByWrite cfg env p force timestamp message s = stillFlushed (rolled cfg env timestamp s.object p) s.flushed := by
  unfold flushedByWrite
  dsimp only
  rw [if_neg]
  rw [Bool.and_eq_true, Bool.and_eq_true]
  rintro ⟨⟨hprepared, -⟩, hflushes⟩
  rcases h with h | h
  · exact Bool.false_ne_true (h.symm.trans hprepared)
  · exact Bool.false_ne_true (h.symm.trans hflushes)

/-- What has been written since the last flush, before the message. -/
theorem unflushed_prepare (hbytes : s.object.bytesSinceFlush < 4294967296) (h : Accounted s) :
    openSize (prepare cfg env timestamp s.object p).2.1 - stillFlushed (rolled cfg env timestamp s.object p) s.flushed
      ≤ (rolled cfg env timestamp s.object p).bytesSinceFlush + headerLength cfg env timestamp s.object p := by
  have hheaded : Headed cfg env timestamp s.object p := prepare_headed hbytes
  rcases Option.eq_none_or_eq_some (rolled cfg env timestamp s.object p).file with hfile | ⟨file, hfile⟩
  · have hopened := hheaded.opened hfile
    omega
  · have hsome : (rolled cfg env timestamp s.object p).file.isSome := by rw [hfile]; rfl
    have hsame := openSize_of_file (hheaded.stays hsome)
    rcases @rolled_cases cfg env s.object p timestamp with heq | ⟨hnone, -⟩
    · unfold stillFlushed
      rw [hsame, if_pos hsome, heq]
      exact Nat.le_trans h (Nat.le_add_right ..)
    · exact absurd (hfile.symm.trans hnone) (Option.some_ne_none file)

/-- A `Write` that does not flush keeps the account exactly if its sums do not overflow. -/
theorem accounted_appended (hbytes : s.object.bytesSinceFlush < 4294967296) (h : Accounted s)
    (hroom : (rolled cfg env timestamp s.object p).bytesSinceFlush + headerLength cfg env timestamp s.object p +
      message.length
      < 4294967296) :
    openSize (withMessage env message (prepare cfg env timestamp s.object p).2.1)
        - stillFlushed (rolled cfg env timestamp s.object p) s.flushed
      ≤ (withMessage env message (prepare cfg env timestamp s.object p).2.1).bytesSinceFlush := by
  have hheaded : Headed cfg env timestamp s.object p := prepare_headed hbytes
  have hraised := hheaded.raised.bytesSinceFlush
  have hbefore := @unflushed_prepare cfg env p timestamp s hbytes h
  have hsize : openSize (withMessage env message (prepare cfg env timestamp s.object p).2.1)
      ≤ openSize (prepare cfg env timestamp s.object p).2.1 + message.length := openSize_appendChunk_le (.message message) _
  rw [bytesSinceFlush_withMessage, hraised]
  omega

/-- A change of the name closes the file or leaves it open, and leaves the counter as it is. -/
theorem setBasename_bytes (basename : Text) (o : LogFileObject) :
    (setBasename basename o).bytesSinceFlush = o.bytesSinceFlush ∧
    ((setBasename basename o).file = none ∨ (setBasename basename o).file = o.file) := by
  unfold setBasename
  dsimp only
  split
  · split
    · exact ⟨rfl, Or.inl rfl⟩
    · exact ⟨rfl, Or.inr rfl⟩
  · exact ⟨rfl, Or.inr rfl⟩

theorem setExtension_bytes (ext : Text) (o : LogFileObject) : (setExtension ext o).bytesSinceFlush = o.bytesSinceFlush ∧
    ((setExtension ext o).file = none ∨ (setExtension ext o).file = o.file) := by
  unfold setExtension
  split
  · dsimp only
    split
    · exact ⟨rfl, Or.inl rfl⟩
    · exact ⟨rfl, Or.inr rfl⟩
  · exact ⟨rfl, Or.inr rfl⟩

theorem Accounted.kept (h : Accounted s) (hsame : o.bytesSinceFlush = s.object.bytesSinceFlush)
    (hfile : o.file = none ∨ o.file = s.object.file) : openSize o - stillFlushed o s.flushed ≤ o.bytesSinceFlush := by
  rw [hsame]
  rcases hfile with hnone | hfile
  · rw [openSize, hnone]
    exact Nat.le_trans (Nat.sub_le _ _) (Nat.zero_le _)
  · rw [openSize_of_file hfile]
    unfold stillFlushed
    split
    · exact h
    · rename_i hclosed
      have hnone : s.object.file = none := by rw [← hfile]; exact Option.not_isSome_iff_eq_none.mp hclosed
      rw [openSize, hnone]
      exact Nat.zero_le _

theorem accounted_write_iff (hbase : ¬(s.object.baseFilenameSelected ∧ s.object.baseFilename = [])) :
    Accounted (s.step cfg (.write env p force timestamp message)) ↔
      openSize (write cfg env force timestamp message s.object p).1 - flushedByWrite cfg env p force timestamp message s
        ≤ (write cfg env force timestamp message s.object p).1.bytesSinceFlush := by
  unfold Accounted Stream.unflushed Stream.step LogFile.step
  dsimp only
  rw [if_neg hbase]

/-- A `Write` without a file keeps the account, and has room. -/
theorem account_failed (hordinary : p.stopWriting = false ∧ message.length ≤ 30000)
    (hbytes : s.object.bytesSinceFlush < 1000000)
    (hrolled : (rolled cfg env timestamp s.object p).bytesSinceFlush < 1000000)
    (hbase : ¬(s.object.baseFilenameSelected ∧ s.object.baseFilename = []))
    (hprepared : (prepare cfg env timestamp s.object p).1 = false) :
    WriteAccount cfg env p force timestamp message s.object ∧
      Accounted (s.step cfg (.write env p force timestamp message)) ∧
      HasRoom cfg s (.write env p force timestamp message) := by
  have hheaded : Headed cfg env timestamp s.object p := prepare_headed (by omega)
  obtain ⟨-, hheader⟩ := hheaded.failed hprepared
  obtain ⟨-, -, hsize⟩ := @write_failed cfg env s.object p force timestamp message hbase hbytes hprepared
  have hnot : ¬Appends cfg env timestamp s.object p := fun happends =>
    Bool.false_ne_true (hprepared.symm.trans happends.1.2)
  refine ⟨⟨fun _ => ?_, fun ha => absurd ha hnot, fun ha => absurd ha hnot, fun ha => absurd ha hnot⟩, ?_, fun _ => ?_⟩
  · omega
  · rw [accounted_write_iff hbase, hsize]
    omega
  · omega

/-- A `Write` that appends its message keeps the account exactly if the counter has room. -/
theorem account_appended_iff (hbytes : s.object.bytesSinceFlush < 1000000) (h : Accounted s)
    (happends : Appends cfg env timestamp s.object p) :
    WriteAccount cfg env p force timestamp message s.object ∧
      Accounted (s.step cfg (.write env p force timestamp message)) ↔
      HasRoom cfg s (.write env p force timestamp message) := by
  have hbase := happends.1.1
  have hlt : s.object.bytesSinceFlush < 4294967296 := by omega
  have hheaded : Headed cfg env timestamp s.object p := prepare_headed hlt
  have hraised := hheaded.raised.bytesSinceFlush
  obtain ⟨hbelow, hzero⟩ := @bytesSinceFlush_write cfg env s.object p force timestamp message happends
  constructor
  · rintro ⟨haccount, -⟩ -
    have hheader := haccount.headerFits hbase
    have hmessage := haccount.messageFits happends
    omega
  · intro hroom
    have hroom := hroom hbase
    refine ⟨⟨fun _ => by omega, fun _ => by omega, fun _ => hbelow, fun _ hforce => ?_⟩, ?_⟩
    · refine hzero ?_
      unfold flushes
      rw [hforce, Bool.true_or, Bool.true_or]
    · rw [accounted_write_iff hbase]
      cases hflushes : flushes env force message (prepare cfg env timestamp s.object p).2.1 with
      | true =>
        rw [flushedByWrite_of_flushes happends hflushes, Nat.sub_self]
        exact Nat.zero_le _
      | false =>
        rw [flushedByWrite_of_not (Or.inr hflushes), write_appended happends,
          if_neg (by rw [hflushes]; exact Bool.false_ne_true)]
        exact accounted_appended hlt h hroom

/-- An ordinary operation leaves the counter below a million, and keeps the account exactly if the counter has room. -/
theorem step_account_iff (hstop : cfg.stopLoggingIfFullDisk = false) (hordinary : Ordinary op)
    (hbytes : s.object.bytesSinceFlush < 1000000) (h : Accounted s) :
    (s.step cfg op).object.bytesSinceFlush < 1000000 ∧
      (StepAccount cfg s op ∧ Accounted (s.step cfg op) ↔ HasRoom cfg s op) := by
  cases op with
  | write env p force timestamp message =>
    have hrolled : (rolled cfg env timestamp s.object p).bytesSinceFlush < 1000000 := by
      rcases @rolled_cases cfg env s.object p timestamp with heq | ⟨-, hzero⟩
      · rw [heq]
        exact hbytes
      · rw [hzero]
        decide
    change (write cfg env force timestamp message s.object p).1.bytesSinceFlush < 1000000 ∧ _
    by_cases hbase : s.object.baseFilenameSelected ∧ s.object.baseFilename = []
    · have hsame : (write cfg env force timestamp message s.object p).1 = s.object := by rw [write, if_pos hbase]
      have hnot : ¬Appends cfg env timestamp s.object p := fun happends => happends.1.1 hbase
      refine ⟨by rw [hsame]; exact hbytes, fun _ hnone => absurd hbase hnone, fun _ => ⟨?_, ?_⟩⟩
      · exact ⟨fun hnone => absurd hbase hnone, fun ha => absurd ha hnot, fun ha => absurd ha hnot,
          fun ha => absurd ha hnot⟩
      · unfold Accounted Stream.unflushed Stream.step LogFile.step
        dsimp only
        rw [if_pos hbase, hsame]
        exact h
    · cases hprepared : (prepare cfg env timestamp s.object p).1 with
      | false =>
        obtain ⟨-, hsame, -⟩ := @write_failed cfg env s.object p force timestamp message hbase hbytes hprepared
        obtain ⟨haccount, haccounted, hroom⟩ := account_failed hordinary hbytes hrolled hbase hprepared
        exact ⟨by rw [hsame]; exact hrolled, fun _ => hroom, fun _ => ⟨haccount, haccounted⟩⟩
      | true =>
        have happends := appends_of_ordinary hstop hordinary.1 hbase hprepared
        exact ⟨(bytesSinceFlush_write happends).1, account_appended_iff hbytes h happends⟩
  | flush now =>
    have hle : (flush cfg now s.object).bytesSinceFlush ≤ s.object.bytesSinceFlush := by
      unfold flush
      dsimp only
      split
      · exact Nat.zero_le _
      · exact Nat.le_refl _
    have hsize : openSize (flush cfg now s.object) - openSize s.object = 0 := by
      rw [openSize_of_file (flush_file cfg now s.object), Nat.sub_self]
    refine ⟨Nat.lt_of_le_of_lt hle hbytes, fun _ => trivial, fun _ => ⟨trivial, ?_⟩⟩
    exact Nat.le_trans (Nat.le_of_eq hsize) (Nat.zero_le _)
  | setBasename basename =>
    obtain ⟨hsame, hfile⟩ := setBasename_bytes basename s.object
    exact ⟨by rw [← hsame] at hbytes; exact hbytes, fun _ => trivial, fun _ => ⟨trivial, h.kept hsame hfile⟩⟩
  | setExtension ext =>
    obtain ⟨hsame, hfile⟩ := setExtension_bytes ext s.object
    exact ⟨by rw [← hsame] at hbytes; exact hbytes, fun _ => trivial, fun _ => ⟨trivial, h.kept hsame hfile⟩⟩
  | setSymlinkBasename basename => exact ⟨hbytes, fun _ => trivial, fun _ => ⟨trivial, h⟩⟩

/-- The counter is kept all along exactly the runs in which it has room. -/
theorem account_iff (hstop : cfg.stopLoggingIfFullDisk = false) (hordinary : ∀ op ∈ ops, Ordinary op)
    (hbytes : s.object.bytesSinceFlush < 1000000) (h : Accounted s) :
    KeepsAccount cfg s ops ↔ Each (Stream.step cfg) (HasRoom cfg) s ops := by
  induction ops generalizing s with
  | nil => exact ⟨fun _ => trivial, fun _ => ⟨h, trivial⟩⟩
  | cons op ops ih =>
    obtain ⟨hnext, hiff⟩ := step_account_iff hstop (hordinary op List.mem_cons_self) hbytes h
    have hrest := fun haccounted => ih (fun op hop => hordinary op (List.mem_cons_of_mem _ hop)) hnext haccounted
    constructor
    · rintro ⟨⟨-, halways⟩, hstep, heach⟩
      exact ⟨hiff.mp ⟨hstep, halways.head⟩, (hrest halways.head).mp ⟨halways, heach⟩⟩
    · rintro ⟨hroom, heach⟩
      obtain ⟨hstep, haccounted⟩ := hiff.mpr hroom
      obtain ⟨halways, heach⟩ := (hrest haccounted).mpr heach
      exact ⟨⟨h, halways⟩, hstep, heach⟩

end

/-- In every run of ordinary operations, while logging does not stop on a full disk, the account is kept exactly if the
    counter has room for the header and the message of every `Write`. -/
theorem keepsAccount_iff (cfg : Config) (severity : Severity) (base : Option Text) (now : Int) (tm : Tm) (ops : List Op)
    (hstop : cfg.stopLoggingIfFullDisk = false) (hordinary : ∀ op ∈ ops, Ordinary op) :
    KeepsAccount cfg ⟨.new cfg severity base now tm, 0⟩ ops ↔
      Each (Stream.step cfg) (HasRoom cfg) ⟨.new cfg severity base now tm, 0⟩ ops :=
  account_iff hstop hordinary (show 0 < 1000000 by decide) (Nat.le_refl 0)

/-- One small message. -/
theorem keepsAccount_iff_small : KeepsAccount plainConfig ⟨plainObject plainConfig, 0⟩ [plainWrite 0 ['c']] :=
  (keepsAccount_iff plainConfig .info (some ['a']) 0 (plainTm 0) [plainWrite 0 ['c']] rfl
    (fun op hop => by rw [List.mem_singleton.mp hop]; exact ⟨rfl, by decide⟩)).mpr ⟨fun _ => by decide, trivial⟩

/-! ### A fingerprint of 4 GiB -/

def fingerprintConfig (n : Nat) : Config :=
  { plainConfig with logFileHeader := true, applicationFingerprint := List.replicate n 'x' }

theorem length_fingerprint_le (cfg : Config) (env : Env) (startTime : Int) (tm : Tm) :
    cfg.applicationFingerprint.length ≤ (fileHeader cfg env startTime tm).length := by
  unfold fileHeader
  by_cases hempty : cfg.applicationFingerprint = []
  · rw [hempty]
    exact Nat.zero_le _
  · rw [if_neg hempty]
    simp only [List.length_append]
    omega

/-- The header of the first file is longer than the fingerprint. -/
theorem le_headerLength (n : Nat) :
    n ≤ headerLength (fingerprintConfig n) plainEnv 0 (plainObject (fingerprintConfig n)) plainProcess := by
  have hmakes : makesFile (fingerprintConfig n) plainEnv 0 (plainObject (fingerprintConfig n)) plainProcess = true := rfl
  have hle := length_fingerprint_le (fingerprintConfig n) plainEnv (plainObject (fingerprintConfig n)).startTime
    (namingTime (fingerprintConfig n) 0)
  have hlength : (fingerprintConfig n).applicationFingerprint.length = n := List.length_replicate
  rw [hlength] at hle
  have hheader : (fingerprintConfig n).logFileHeader = true := rfl
  rw [headerLength, headerIf, hmakes, hheader, Bool.and_self, if_pos rfl]
  exact hle

/-- The header of the first file overflows the counter. -/
theorem not_keepsAccount : ¬ ∀ (cfg : Config) (severity : Severity) (base : Option Text) (now : Int) (tm : Tm)
    (ops : List Op), cfg.stopLoggingIfFullDisk = false → (∀ op ∈ ops, Ordinary op) →
      KeepsAccount cfg ⟨.new cfg severity base now tm, 0⟩ ops := by
  intro h
  have hroom : ∀ n, headerLength (fingerprintConfig n) plainEnv 0 (plainObject (fingerprintConfig n)) plainProcess <
      4294967296 := by
    intro n
    have haccount :
        WriteAccount (fingerprintConfig n) plainEnv plainProcess false 0 ['c'] (plainObject (fingerprintConfig n)) :=
      (h (fingerprintConfig n) .info (some ['a']) 0 (plainTm 0) [plainWrite 0 ['c']] rfl
        (fun op hop => by rw [List.mem_singleton.mp hop]; exact ⟨rfl, by decide⟩)).steps.1
    have hfits := haccount.headerFits fun hempty => absurd hempty.2 (List.cons_ne_nil _ _)
    exact Nat.lt_of_le_of_lt (Nat.le_add_left _ _) hfits
  exact absurd (hroom 4294967296) (Nat.not_lt.mpr (le_headerLength 4294967296))

end Glog.LogFile
