import TapeBasic.Command.Failure
import TapeBasic.Command.Request
import TapeBasic.Picture.Painter

/-!
# What a command does to its host

A command comes to its result with some events on the way. The events are shown as they come; then the output is
written, and then the texts about it are printed. The first of these steps that fails stops the command, and the failure
is reported.
-/
namespace TapeBasic

/-- What a command works on. -/
structure Host (φ κ γ : Type) where
  files : FileSystem φ
  console : Console κ
  /-- The image library, if there is one. -/
  painter : Option (Painter γ)
  arguments : ArgumentReader φ κ

/-! ## Results -/

namespace Command

/-- A text with a line end behind it. -/
def line (text : List Char) : List Char := text ++ ['\n']

/-- What a command has come to before its output is written: the file to write, and the texts that are printed then,
one after the other. -/
structure Draft where
  output : Option (Path × List UInt8)
  texts : List (List Char)

/-- A result of a command with the events that led up to it. -/
structure Progress where
  events : Journal
  result : Except CommandFailure Draft

/-- The line of the log about an event: the log shows every event with its level if asked to, and else only warnings
(`setup_logging`). -/
def logLine? (verbose : Bool) (event : Event) : Option (List Char) :=
  if verbose then some (event.level.text ++ ": ".toList ++ event.text)
  else if event.level == .warning then some event.text
  else none

end Command

/-! ## The console -/

namespace Console

variable {κ : Type}

/-- Shows an event in the log. -/
def logEvent (console : Console κ) (verbose : Bool) (k : κ) (event : Event) : κ :=
  match Command.logLine? verbose event with
  | some text => console.log k text
  | none => k

/-- Shows an event: in the log, and a warning about the listing to the user as well (`_warn`). -/
def showEvent (console : Console κ) (verbose : Bool) (k : κ) (event : Event) : Option HostError × κ :=
  match event.diagnostic? with
  | some diagnostic => console.print (console.logEvent verbose k event) .err (Command.line diagnostic.text)
  | none => (none, console.logEvent verbose k event)

/-- Shows events as they come, up to the first that cannot be shown. -/
def showAll (console : Console κ) (verbose : Bool) : κ → Journal → Option HostError × κ
  | k, [] => (none, k)
  | k, event :: events =>
    match console.showEvent verbose k event with
    | (some error, k) => (some error, k)
    | (none, k) => console.showAll verbose k events

/-- Prints texts one after the other, up to the first that cannot be printed. -/
def printAll (console : Console κ) : κ → List (List Char) → Option HostError × κ
  | k, [] => (none, k)
  | k, text :: texts =>
    match console.print k .out text with
    | (some error, k) => (some error, k)
    | (none, k) => console.printAll k texts

end Console

/-! ## Carrying out -/

namespace Host

variable {φ κ γ : Type}

/-- How a command has stopped, or that it has come to its end, and what it has left behind. -/
structure Stop (φ κ : Type) where
  failure : Option CommandFailure
  files : φ
  console : κ

/-- How the tool has ended. -/
structure Ending (φ κ : Type) where
  exitCode : Nat
  files : φ
  console : κ

/-- Writes the output, if there is one. -/
def writeOutput (host : Host φ κ γ) (files : φ) : Option (Path × List UInt8) → Option HostError × φ
  | none => (none, files)
  | some (path, bytes) => host.files.write files path bytes

/-- Carries out what a command has come to. -/
def carryOut (host : Host φ κ γ) (verbose : Bool) (files : φ) (console : κ) (p : Command.Progress) : Stop φ κ :=
  match host.console.showAll verbose console p.events with
  | (some error, console) => ⟨some (.host error), files, console⟩
  | (none, console) =>
    match p.result with
    | .error failure => ⟨some failure, files, console⟩
    | .ok draft =>
      match host.writeOutput files draft.output with
      | (some error, files) => ⟨some (.host error), files, console⟩
      | (none, files) =>
        match host.console.printAll console draft.texts with
        | (error, console) => ⟨error.map .host, files, console⟩

/-- The exit code of an error that nobody expects, as while a failure is reported. -/
def uncaughtExitCode : Nat := 1

/-- Reports how a command has stopped (`handle_cli_exception`). An internal error is traced if the whole log is asked
for. -/
def report (host : Host φ κ γ) (verbose : Bool) (label : List Char) (stop : Stop φ κ) : Ending φ κ :=
  match stop.failure with
  | none => ⟨0, stop.files, stop.console⟩
  | some failure =>
    match host.console.print stop.console .err (failure.kind.report label failure.message) with
    | (some _, console) => ⟨uncaughtExitCode, stop.files, console⟩
    | (none, console) =>
      if verbose && failure.kind == .internal then
        match host.console.trace console failure.message with
        | (some _, console) => ⟨uncaughtExitCode, stop.files, console⟩
        | (none, console) => ⟨failure.kind.exitCode, stop.files, console⟩
      else ⟨failure.kind.exitCode, stop.files, console⟩

end Host

end TapeBasic
