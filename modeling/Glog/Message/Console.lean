import Glog.LogFile.Object

/-! # Colors on the console

A terminal is asked for a color by an escape sequence before a line, and for its own color by one behind it. -/

namespace Glog.LogMessage
open LogFile

/-- `TerminalSupportsColor`, from the variable `TERM`. -/
def terminalSupportsColor : Option Text → Bool
  | none => false
  | some term =>
    term != [] &&
      ["xterm", "xterm-color", "xterm-256color", "screen-256color", "konsole", "konsole-16color", "konsole-256color",
        "screen", "linux", "cygwin"].any fun name => term == name.toList

inductive GLogColor
  | default | red | green | yellow
  deriving DecidableEq

def severityToColor : Severity → GLogColor
  | .info => .default
  | .warning => .yellow
  | .error | .fatal => .red

def getAnsiColorCode : GLogColor → Text
  | .red => ['1']
  | .green => ['2']
  | .yellow => ['3']
  | .default => []

structure ColorFlags where
  colorlogtostderr : Bool
  colorlogtostdout : Bool
  /-- `LogDestination::terminal_supports_color`. -/
  terminalSupportsColor : Bool

section
variable (flags : ColorFlags) (isStdout : Bool) (severity : Severity)

def consoleColor : GLogColor :=
  if flags.terminalSupportsColor && (if isStdout then flags.colorlogtostdout else flags.colorlogtostderr) then
    severityToColor severity
  else .default

/-- `ColoredWriteToStderrOrStdout`: what is written. -/
def coloredWriteToStderrOrStdout (message : Text) : Text :=
  if consoleColor flags isStdout severity = .default then message
  else '\x1b' :: '[' :: '0' :: ';' :: '3' :: getAnsiColorCode (consoleColor flags isStdout severity) ++ 'm' :: message ++
    ['\x1b', '[', 'm']

end

/-! ### What is shown -/

/-- A text without its escape sequences, which go on to the next `m`; `inside` tells whether it begins in one. -/
def shown : (inside : Bool) → Text → Text
  | _, [] => []
  | true, c :: rest => shown (c != 'm') rest
  | false, c :: rest => if c = '\x1b' then shown true rest else c :: shown false rest

section
variable {flags : ColorFlags} {isStdout : Bool} {severity : Severity} {message rest : Text}

theorem shown_append (h : '\x1b' ∉ message) : shown false (message ++ rest) = message ++ shown false rest := by
  induction message with
  | nil => rfl
  | cons c message ih =>
    rw [List.mem_cons, not_or] at h
    obtain ⟨hc, hmessage⟩ := h
    rw [List.cons_append, shown, if_neg (Ne.symm hc), ih hmessage, List.cons_append]

theorem shown_code (color : GLogColor) : shown true (getAnsiColorCode color ++ 'm' :: rest) = shown false rest := by
  cases color <;> rfl

/-- A line is shown as it is, in whatever color. -/
theorem shown_colored (h : '\x1b' ∉ message) :
    shown false (coloredWriteToStderrOrStdout flags isStdout severity message ++ rest) = message ++ shown false rest := by
  unfold coloredWriteToStderrOrStdout
  split
  · exact shown_append h
  · simp only [List.cons_append, List.append_assoc, List.nil_append]
    change shown true (getAnsiColorCode _ ++ 'm' :: (message ++ '\x1b' :: '[' :: 'm' :: rest)) = _
    rw [shown_code, shown_append h]
    rfl

end

end Glog.LogMessage
