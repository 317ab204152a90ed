import Glog.LogFile.Object

/-! # Writing to a log file

`LogFileObject::Write` and what it calls, in the order of the source. `prepare` is the part of `Write` that
ends with an open file, or gives up; `writeMessage` is the rest. -/

namespace Glog.LogFile

/-! ### Texts -/

def decimal : Int → Text
  | .ofNat n => Nat.toDigits 10 n
  | .negSucc n => '-' :: Nat.toDigits 10 (n + 1)

/-- `setw` with the fill character `0`. -/
def setw (width : Nat) (text : Text) : Text := List.replicate (width - text.length) '0' ++ text

def twoDigits (n : Nat) : Text := setw 2 (decimal n)

/-- The date and, by the policy, the time, and the process id. -/
def timePidString (policy : Policy) (tm : Tm) (pid : Int) : Text :=
  decimal (1900 + tm.year) ++ twoDigits (1 + tm.mon) ++ twoDigits tm.mday ++
    (match policy with
      | .hour => twoDigits tm.hour
      | .day => []
      | .size | .other => '-' :: (twoDigits tm.hour ++ twoDigits tm.min ++ twoDigits tm.sec)) ++
    '.' :: decimal pid

def prettyDuration (secs : Int) : Text :=
  let mins := secs.tdiv 60
  let hours := mins.tdiv 60
  decimal hours ++ ':' :: setw 2 (decimal (mins.tmod 60)) ++ ':' :: setw 2 (decimal (secs.tmod 60))

def fileHeader (cfg : Config) (env : Env) (startTime : Int) (tm : Tm) : Text :=
  "Log file created at: ".toList ++ decimal (1900 + tm.year) ++ '/' :: twoDigits (1 + tm.mon) ++ '/' :: twoDigits tm.mday ++
    ' ' :: twoDigits tm.hour ++ ':' :: twoDigits tm.min ++ ':' :: twoDigits tm.sec ++
    (if cfg.utcTime then " UTC".toList else []) ++ decimal env.utcOffset ++
    "\nRunning on machine: ".toList ++ cfg.hostname ++ ['\n'] ++
    (if cfg.applicationFingerprint = [] then []
      else "Application fingerprint: ".toList ++ cfg.applicationFingerprint ++ ['\n']) ++
    "Running duration (h:mm:ss): ".toList ++ prettyDuration ((env.now - startTime).tdiv 1000000) ++
    "\nLog line format: [IWEF]".toList ++
    (if cfg.logYearInPrefix then "yyyymmdd hh:mm:ss.uuuuuu".toList else "mmdd hh:mm:ss.uuuuuu".toList) ++
    " threadid file:line] msg\n".toList

section
variable (cfg : Config) (env : Env)

/-- `MaxLogSize`, in MiB. -/
def maxLogSize : Nat := if cfg.maxLogSize > 0 ∧ cfg.maxLogSize < 4096 then cfg.maxLogSize else 1

/-! ### The list of files -/

/-- `std::multiset::insert`: behind the entries that are not greater. -/
def insertFile (e : Filetime) : List Filetime → List Filetime
  | [] => [e]
  | x :: rest => if e.time < x.time then e :: x :: rest else x :: insertFile e rest

/-- Removes the first files of the list while there are too many. -/
def retain (o : LogFileObject) : List Filetime → LogFileObject
  | [] => { o with fileList := [] }
  | e :: rest =>
    if cfg.maxLogfileNum > 0 ∧ (e :: rest).length ≥ cfg.maxLogfileNum then
      retain { o with retired := o.retired ++ [⟨e, rest⟩] } rest
    else { o with fileList := e :: rest }

/-- The loop over the directory: the files of this severity, and whether all of them could be examined. -/
def scan (dir marker : Text) : List DirEntry → List Filetime → List Filetime × Bool
  | [], found => (found, true)
  | entry :: rest, found =>
    if entry.isDirOrLink then scan dir marker rest found
    else if marker <+: entry.name then
      match entry.mtime with
      | none => (found, false)
      | some mtime => scan dir marker rest (insertFile ⟨dir ++ '/' :: entry.name, mtime, .disk mtime⟩ found)
    else scan dir marker rest found

def checkHistoryFileNum (o : LogFileObject) : LogFileObject :=
  match cfg.loggingDirectories, env.listing with
  | dir :: _, some entries =>
    let found := scan dir (o.symlinkBasename ++ '.' :: o.severity.name) entries []
    if found.2 then retain cfg o found.1 else { o with fileList := found.1 }
  | _, _ => o

/-! ### Rolling -/

/-- `PidHasChanged`: it tells of a change once. -/
def pidHasChanged (p : Process) : Bool × Process :=
  if p.mainThreadPid = env.pid then (false, p) else (true, { p with mainThreadPid := env.pid })

def sameDay (a b : Tm) : Bool := a.year == b.year && a.mon == b.mon && a.mday == b.mday

def sameHour (a b : Tm) : Bool := sameDay a b && a.hour == b.hour

def checkNeedRollLogFiles (timestamp : Int) (o : LogFileObject) (p : Process) : Bool × Process :=
  match cfg.policy with
  | .day => (!sameDay (cfg.localtime timestamp) o.tmTime, p)
  | .hour => (!sameHour (cfg.localtime timestamp) o.tmTime, p)
  | .size | .other => if o.fileLength >>> 20 ≥ maxLogSize cfg then (true, p) else pidHasChanged env p

def roll (o : LogFileObject) : LogFileObject :=
  { o.closeFile with
    fileLength := 0
    bytesSinceFlush := 0
    droppedMemLength := 0
    rolloverAttempt := kRolloverAttemptFrequency - 1 }

/-! ### Opening a file -/

/-- `CreateLogfileInternal`: with `excl` the file must not exist. -/
def createLogfileInternal (path : Text) (excl : Bool) (timestamp : Int) (o : LogFileObject) : Bool × LogFileObject :=
  match env.openFile path excl with
  | .failed => (false, o)
  | .lockFailed | .noStream => (false, { o with opens := o.opens ++ [path] })
  | .success inode isNew =>
    (true, { o with
      file := some ⟨path, inode, excl || isNew, env.pid, timestamp, []⟩
      opens := o.opens ++ [path] })

/-- The names with a sequence number that are tried for a file that is too large: the first that is free or
    not full, or else the oldest, which is removed. -/
def nextSequence (origin : Text) : Nat → Nat → Int × Text → Text
  | 0, _, oldest => oldest.2
  | count + 1, i, oldest =>
    let name := origin ++ '-' :: setw 3 (decimal i)
    match env.stat name with
    | none => name
    | some st =>
      if st.size >>> 20 < maxLogSize cfg then name
      else nextSequence origin count (i + 1) (if st.mtime < oldest.1 then (st.mtime, name) else oldest)

def getSuitableFileName (origin : Text) (p : Process) : Text × Process :=
  match env.stat origin with
  | none => (origin, p)
  | some st =>
    if st.size >>> 20 > maxLogSize cfg then
      if p.rollingFileNumber < 0 ∨ p.rollingFileNumber > 100 then
        (nextSequence cfg env origin 10 0 (st.mtime, origin), { p with rollingFileNumber := 10 })
      else if p.rollingFileNumber = 0 then (nextSequence cfg env origin 2147483647 0 (st.mtime, origin), p)
      -- Here `max_logfile_count` is left uninitialized.
      else (nextSequence cfg env origin env.indeterminateCount 0 (st.mtime, origin), p)
    else (origin, p)

/-- The time that goes into the name of a file. -/
def namingTime (timestamp : Int) : Tm := if cfg.utcTime then cfg.gmtime timestamp else cfg.localtime timestamp

/-- The base name, the time and the extension. -/
def logfileName (timePid : Text) (o : LogFileObject) : Text :=
  o.baseFilename ++ (if cfg.timestampInLogfileName then timePid else []) ++ o.filenameExtension

def createLogfile (timePid : Text) (timestamp : Int) (o : LogFileObject) (p : Process) :
    Bool × LogFileObject × Process :=
  let name := logfileName cfg timePid o
  let suitable := getSuitableFileName cfg env name p
  let r := createLogfileInternal env suitable.1 cfg.timestampInLogfileName timestamp o
  if r.1 then
    -- The time of the new entry is never set.
    (true, { r.2 with
      fileList := insertFile ⟨name, env.indeterminateTime, .created r.2.creations⟩ r.2.fileList
      creations := r.2.creations + 1 }, suitable.2)
  else (false, r.2, suitable.2)

/-- `<program name>.<hostname>.<user name>.log.<severity level>.` -/
def strippedFilename (o : LogFileObject) : Text :=
  cfg.programName ++ '.' :: cfg.hostname ++ '.' :: (if cfg.userName = [] then "invalid-user".toList else cfg.userName) ++
    ".log.".toList ++ o.severity.name ++ ['.']

/-- Goes through the directories until a file can be created. -/
def createDefaultLogfile (timePid : Text) (timestamp : Int) (o : LogFileObject) (p : Process) :
    List Text → Bool × LogFileObject × Process
  | [] => (false, o, p)
  | dir :: dirs =>
    let r := createLogfile cfg env timePid timestamp { o with baseFilename := dir ++ '/' :: strippedFilename cfg o } p
    if r.1 then r else createDefaultLogfile timePid timestamp r.2.1 r.2.2 dirs

def create (timestamp : Int) (o : LogFileObject) (p : Process) : Bool × LogFileObject × Process :=
  let timePid := timePidString cfg.policy (namingTime cfg timestamp) p.mainThreadPid
  if o.baseFilenameSelected then createLogfile cfg env timePid timestamp o p
  else createDefaultLogfile cfg env timePid timestamp o p cfg.loggingDirectories

/-! ### Write -/

/-- `fwrite` of the header or of a message to the open file: a full disk takes a part of it, and what the buffer does not
    hold back is written to the file. -/
def appendChunk (c : Chunk) (o : LogFileObject) : LogFileObject :=
  { o with
    file := o.file.map fun h => { h with written := h.written ++ [c.take (env.taken c)] }
    buffered := min env.holdsBack (o.buffered + env.taken c)
    stores := o.stores ++ if o.buffered + env.taken c ≤ env.holdsBack then [] else o.file.toList }

def countBytes (length : Nat) (o : LogFileObject) : LogFileObject :=
  { o with
    fileLength := o.fileLength + length
    bytesSinceFlush := (o.bytesSinceFlush + length) % 4294967296 }

def writeHeader (tm : Tm) (o : LogFileObject) : LogFileObject :=
  if cfg.logFileHeader then
    let header := fileHeader cfg env o.startTime tm
    countBytes header.length (appendChunk env (.header header) o)
  else o

/-- Under the size policy the newest history file is reopened once. -/
def reopenHistory (timestamp : Int) (o : LogFileObject) : LogFileObject :=
  if o.file.isNone ∧ o.initialized = false ∧ cfg.policy = .size then
    let o := checkHistoryFileNum cfg env o
    match o.fileList.getLast? with
    | none => o
    | some newest =>
      let r := createLogfileInternal env newest.name false timestamp o
      if r.1 then { r.2 with initialized := true } else r.2
  else o

/-- Removes old files before a new one is made. -/
def prune (o : LogFileObject) : LogFileObject :=
  if o.initialized then retain cfg o o.fileList else { checkHistoryFileNum cfg env o with initialized := true }

/-- Makes a destination file before outputting. -/
def makeFile (timestamp : Int) (o : LogFileObject) (p : Process) : Bool × LogFileObject × Process :=
  -- Try to rollover the log file every 32 log messages.
  if o.rolloverAttempt + 1 ≠ kRolloverAttemptFrequency then (false, { o with rolloverAttempt := o.rolloverAttempt + 1 }, p)
  else
    let o := { o with rolloverAttempt := 0 }
    let o := prune cfg env o
    let tm := namingTime cfg timestamp
    let r := create cfg env timestamp { o with tmTime := tm } p
    if r.1 then (true, writeHeader cfg env tm r.2.1, r.2.2) else r

def rollIfNeeded (need : Bool) (o : LogFileObject) : LogFileObject := if need then roll o else o

def prepare (timestamp : Int) (o : LogFileObject) (p : Process) : Bool × LogFileObject × Process :=
  let need := checkNeedRollLogFiles cfg env timestamp o p
  let o := reopenHistory cfg env timestamp (rollIfNeeded need.1 o)
  if o.file.isNone then makeFile cfg env timestamp o need.2 else (true, o, need.2)

/-- Don't evict the most recent 1-2MiB; the arithmetic is that of `uint32`. -/
def totalDropLength (o : LogFileObject) : Nat :=
  (o.fileLength % 4294967296 / 1048576 * 1048576 + (4294967296 - 1048576)) % 4294967296

def thisDropLength (o : LogFileObject) : Nat := (totalDropLength o + 4294967296 - o.droppedMemLength) % 4294967296

/-- Only consider files >= 3MiB, and only advise when >= 2MiB to drop. -/
def dropLogMemory (o : LogFileObject) : LogFileObject :=
  if cfg.dropLogMemory ∧ o.fileLength ≥ 3145728 ∧ thisDropLength o ≥ 2097152 then
    { o with droppedMemLength := totalDropLength o }
  else o

def writeMessage (forceFlush : Bool) (message : Text) (o : LogFileObject) (p : Process) : LogFileObject × Process :=
  if p.stopWriting then
    -- check to see if disk has free space.
    (o, if env.now ≥ o.nextFlushTime then { p with stopWriting := false } else p)
  else
    let o := appendChunk env (.message message) o
    if cfg.stopLoggingIfFullDisk ∧ env.diskFull then (o, { p with stopWriting := true })
    else
      let o := countBytes message.length o
      -- See important msgs *now*. Then the log cleaner is run, which leaves the object alone.
      if forceFlush ∨ o.bytesSinceFlush ≥ 1000000 ∨ env.now ≥ o.nextFlushTime then
        (dropLogMemory cfg (flush cfg env.now o), p)
      else (o, p)

def write (forceFlush : Bool) (timestamp : Int) (message : Text) (o : LogFileObject) (p : Process) :
    LogFileObject × Process :=
  -- We don't log if the base_name_ is "" (which means "don't write")
  if o.baseFilenameSelected ∧ o.baseFilename = [] then (o, p)
  else
    let r := prepare cfg env timestamp o p
    if r.1 then writeMessage cfg env forceFlush message r.2.1 r.2.2 else r.2

end

end Glog.LogFile
