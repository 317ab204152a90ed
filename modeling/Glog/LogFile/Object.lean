import Mathlib.Algebra.GroupWithZero.Nat

/-! # The log file object: its state and its environment

`LogFileObject` is the class of `logging.cc` that writes the log files of one severity. What the operating
system answers during a call is an `Env`; the flags and the names that do not change are a `Config`; the
variables that all log file objects share are a `Process`. A byte is a Lean `Char`, a time of day or of a file
is a number of seconds, and the clock counts microseconds.

The buffer of a `FILE` is told by its length: it holds the last bytes that have been given to the file.

`closed`, `opens`, `stores`, `retired` and `creations` are ghosts, and so are the fields of a `Handle` other
than its path: they record what happened to the files, and no function reads them back. The symbolic links to
the newest file are not part of it; `createLinkedLogfile` adds them. -/

namespace Glog.LogFile

abbrev Text := List Char

inductive Severity
  | info | warning | error | fatal
  deriving DecidableEq

/-- `LogSeverityNames`. -/
def Severity.name : Severity → Text
  | .info => "INFO".toList
  | .warning => "WARNING".toList
  | .error => "ERROR".toList
  | .fatal => "FATAL".toList

def Severity.toInt : Severity → Int
  | .info => 0
  | .warning => 1
  | .error => 2
  | .fatal => 3

/-- `log_rolling_policy`: one of the three values that are tested for, or another string. -/
inductive Policy
  | size | day | hour | other
  deriving DecidableEq

/-- `struct tm`: the year counts from 1900, the month from zero. -/
structure Tm where
  year : Int
  mon : Nat
  mday : Nat
  hour : Nat
  min : Nat
  sec : Nat
  deriving DecidableEq

structure Config where
  policy : Policy
  utcTime : Bool
  timestampInLogfileName : Bool
  maxLogSize : Nat
  maxLogfileNum : Nat
  logFileHeader : Bool
  stopLoggingIfFullDisk : Bool
  dropLogMemory : Bool
  logYearInPrefix : Bool
  logbufsecs : Int
  logbuflevel : Int
  localtime : Int → Tm
  gmtime : Int → Tm
  /-- `GetLoggingDirectories`. -/
  loggingDirectories : List Text
  /-- `ProgramInvocationShortName`. -/
  programName : Text
  hostname : Text
  userName : Text
  applicationFingerprint : Text

/-- What `readdir` and `stat` tell of a directory entry. -/
structure DirEntry where
  name : Text
  isDirOrLink : Bool
  /-- `none` where `stat` fails. -/
  mtime : Option Int

structure FileStat where
  size : Nat
  mtime : Int

/-- What becomes of an attempt to open a file for writing. -/
inductive OpenResult
  | failed
  /-- The file is open, but the lock on it cannot be had. -/
  | lockFailed
  /-- The file is open, but `fdopen` fails. -/
  | noStream
  | success (inode : Nat) (isNew : Bool)

inductive Chunk
  | header (text : Text)
  | message (text : Text)
  deriving DecidableEq

def Chunk.text : Chunk → Text
  | .header text | .message text => text

/-- The first bytes of a chunk. -/
def Chunk.take (n : Nat) : Chunk → Chunk
  | .header text => .header (text.take n)
  | .message text => .message (text.take n)

structure Env where
  pid : Int
  /-- `CycleClock_Now`. -/
  now : Int
  /-- The distance to UTC that is written into the header. -/
  utcOffset : Int
  /-- The entries of the first logging directory; `none` where `opendir` fails. -/
  listing : Option (List DirEntry)
  stat : Text → Option FileStat
  /-- The flag says that the file must not exist. -/
  openFile : Text → Bool → OpenResult
  /-- `fwrite` sets `ENOSPC`. -/
  diskFull : Bool
  /-- How many bytes of a chunk it takes then. -/
  accepted : Chunk → Nat
  /-- How many bytes the buffer of a `FILE` holds back behind an `fwrite`. -/
  holdsBack : Nat
  /-- The value of an uninitialized `Filetime::time`. -/
  indeterminateTime : Int
  /-- The value of the uninitialized `max_logfile_count`. -/
  indeterminateCount : Nat
  /-- The value of an uninitialized `tm_time_`. -/
  indeterminateTm : Tm

/-- How many bytes of a chunk `fwrite` takes. -/
def Env.taken (env : Env) (c : Chunk) : Nat := if env.diskFull then min (env.accepted c) c.text.length else c.text.length

theorem Env.taken_le (env : Env) (c : Chunk) : env.taken c ≤ c.text.length := by
  unfold Env.taken
  split
  · exact Nat.min_le_right _ _
  · exact Nat.le_refl _

theorem Chunk.length_take {n : Nat} {c : Chunk} (h : n ≤ c.text.length) : (c.take n).text.length = n := by
  cases c <;> exact List.length_take_of_le h

/-- Where there is room the chunk is taken whole. -/
theorem Env.take_taken {env : Env} (hfull : env.diskFull = false) (c : Chunk) : c.take (env.taken c) = c := by
  rw [taken, hfull, if_neg Bool.false_ne_true]
  cases c <;> exact congrArg _ (List.take_length)

/-- Variables of the process. -/
structure Process where
  mainThreadPid : Int
  stopWriting : Bool
  rollingFileNumber : Int

/-- Where an entry of the list of files comes from: found on disk with a modification time, or created by
    this object, with its number. -/
inductive Age
  | disk (mtime : Int)
  | created (number : Nat)
  deriving DecidableEq

structure Filetime where
  name : Text
  time : Int
  age : Age
  deriving DecidableEq

/-- A file that is removed, and the other files of the list. -/
structure Retired where
  file : Filetime
  others : List Filetime
  deriving DecidableEq

/-- A file that is open, with what has been written to it since. -/
structure Handle where
  path : Text
  inode : Nat
  /-- The file did not exist before. -/
  isNew : Bool
  /-- The process that opened it. -/
  pid : Int
  /-- The timestamp of the `Write` that opened it. -/
  timestamp : Int
  written : List Chunk
  deriving DecidableEq

/-- How many bytes have been written. -/
def Handle.size (h : Handle) : Nat := (h.written.map fun c => c.text.length).sum

structure LogFileObject where
  severity : Severity
  baseFilenameSelected : Bool
  baseFilename : Text
  symlinkBasename : Text
  filenameExtension : Text
  file : Option Handle
  /-- The length of what is in the buffer of `file`, and not in the file yet. -/
  buffered : Nat
  bytesSinceFlush : Nat
  droppedMemLength : Nat
  fileLength : Nat
  rolloverAttempt : Nat
  nextFlushTime : Int
  startTime : Int
  /-- A multiset in the order of the times. -/
  fileList : List Filetime
  initialized : Bool
  tmTime : Tm
  closed : List Handle
  opens : List Text
  /-- The files into which the buffer has been written, each as it was then. -/
  stores : List Handle
  retired : List Retired
  creations : Nat

/-- The files that the object has opened. -/
def LogFileObject.files (o : LogFileObject) : List Handle := o.closed ++ o.file.toList

def kRolloverAttemptFrequency : Nat := 32

/-- The constructor; `tm_time_` is left uninitialized. -/
def LogFileObject.new (cfg : Config) (severity : Severity) (baseFilename : Option Text) (now : Int) (tmTime : Tm) :
    LogFileObject where
  severity := severity
  baseFilenameSelected := baseFilename.isSome
  baseFilename := baseFilename.getD []
  symlinkBasename := cfg.programName
  filenameExtension := []
  file := none
  buffered := 0
  bytesSinceFlush := 0
  droppedMemLength := 0
  fileLength := 0
  rolloverAttempt := kRolloverAttemptFrequency - 1
  nextFlushTime := 0
  startTime := now
  fileList := []
  initialized := false
  tmTime := tmTime
  closed := []
  opens := []
  stores := []
  retired := []
  creations := 0

/-- Writes out the buffer of the file, if there is something in it. -/
def LogFileObject.emptyBuffer (o : LogFileObject) : LogFileObject :=
  { o with buffered := 0, stores := o.stores ++ if o.buffered = 0 then [] else o.file.toList }

/-- Closes the file, if there is one. -/
def LogFileObject.closeFile (o : LogFileObject) : LogFileObject :=
  { o.emptyBuffer with file := none, closed := o.closed ++ o.file.toList }

/-! ### Configuration -/

def setBasename (basename : Text) (o : LogFileObject) : LogFileObject :=
  let o := { o with baseFilenameSelected := true }
  if o.baseFilename ≠ basename then
    -- Get rid of old log file since we are changing names
    let o := if o.file.isSome then { o.closeFile with rolloverAttempt := kRolloverAttemptFrequency - 1 } else o
    { o with baseFilename := basename }
  else o

def setExtension (ext : Text) (o : LogFileObject) : LogFileObject :=
  if o.filenameExtension ≠ ext then
    let o := if o.file.isSome then { o.closeFile with rolloverAttempt := kRolloverAttemptFrequency - 1 } else o
    { o with filenameExtension := ext }
  else o

def setSymlinkBasename (basename : Text) (o : LogFileObject) : LogFileObject :=
  { o with symlinkBasename := basename }

/-- `FlushUnlocked`. -/
def flush (cfg : Config) (now : Int) (o : LogFileObject) : LogFileObject :=
  let o := if o.file.isSome then { o.emptyBuffer with bytesSinceFlush := 0 } else o
  -- Figure out when we are due for another flush.
  { o with nextFlushTime := now + cfg.logbufsecs * 1000000 }

/-- `LogSize`. -/
def logSize (o : LogFileObject) : Nat := o.fileLength

end Glog.LogFile
