import Glog.LogFile.Prepare

/-! # The log files of all severities

`LogDestination` holds a log file object for each severity, made when it is first asked for. A message is
written to the file of its severity and to those of the lower severities; behind a fatal message all files are
flushed. `past` is a ghost: the files of the processes that came before. -/

namespace Glog.LogFile

/-- The severities from `i` down. -/
def Severity.andLower : Severity → List Severity
  | .info => [.info]
  | .warning => [.warning, .info]
  | .error => [.error, .warning, .info]
  | .fatal => [.fatal, .error, .warning, .info]

def Severity.all : List Severity := [.info, .warning, .error, .fatal]

theorem Severity.mem_all (i : Severity) : i ∈ Severity.all := by cases i <;> decide

structure Loggers where
  object : Severity → Option LogFileObject
  process : Process
  past : List Handle

def Loggers.start (p : Process) : Loggers where
  object _ := none
  process := p
  past := []

section
variable (cfg : Config)

/-- `log_destination(severity)`. -/
def logDestination (env : Env) (i : Severity) (s : Loggers) : LogFileObject :=
  (s.object i).getD (.new cfg i none env.now env.indeterminateTm)

def setObject (i : Severity) (o : LogFileObject) (s : Loggers) : Loggers :=
  { s with object := fun j => if j = i then some o else s.object j }

/-- A `Write` of the logger of severity `i`. -/
def writeTo (i : Severity) (env : Env) (forceFlush : Bool) (timestamp : Int) (message : Text) (s : Loggers) : Loggers :=
  let r := write cfg env forceFlush timestamp message (logDestination cfg env i s) s.process
  { setObject i r.1 s with process := r.2 }

inductive LoggerOp
  | write (i : Severity) (env : Env) (forceFlush : Bool) (timestamp : Int) (message : Text)
  | setLogDestination (i : Severity) (env : Env) (basename : Text)
  | setExtension (i : Severity) (env : Env) (ext : Text)
  | setSymlink (i : Severity) (env : Env) (basename : Text)
  | flush (i : Severity) (env : Env)
  /-- Another process starts over the same files. -/
  | restart (p : Process)

def Loggers.files (s : Loggers) : List Handle :=
  s.past ++ Severity.all.flatMap fun i => (s.object i).elim [] LogFileObject.files

def stepAll (s : Loggers) : LoggerOp → Loggers
  | .write i env forceFlush timestamp message => writeTo cfg i env forceFlush timestamp message s
  | .setLogDestination i env basename => setObject i (setBasename basename (logDestination cfg env i s)) s
  | .setExtension i env ext => setObject i (setExtension ext (logDestination cfg env i s)) s
  | .setSymlink i env basename => setObject i (setSymlinkBasename basename (logDestination cfg env i s)) s
  | .flush i env => setObject i (flush cfg env.now (logDestination cfg env i s)) s
  | .restart p => { Loggers.start p with past := s.files }

/-- `LogDestination::LogToAllLogfiles`, with what the system answers to each logger. -/
def logToAllLogfiles (severity : Severity) (timestamp : Int) (message : Text) (env : Severity → Env) (s : Loggers) :
    Loggers :=
  severity.andLower.foldl (fun s i => writeTo cfg i (env i) (decide (i.toInt > cfg.logbuflevel)) timestamp message s) s

/-- The files are flushed behind a fatal message. -/
def flushAll (env : Severity → Env) (s : Loggers) : Loggers :=
  Severity.all.foldl (fun s i => if (s.object i).isSome then writeTo cfg i (env i) true 0 [] s else s) s

end

end Glog.LogFile
