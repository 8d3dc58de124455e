import TapeBasic.Cassette
import TapeBasic.Source.File

/-!
# How commands fail (`handle_cli_exception`)

A failure of a command has a kind, which settles the exit code and the first words of its report, and a message.
-/
namespace TapeBasic

/-- What a failure says about whose fault it is. -/
inductive FailureKind where
  /-- A listing is wrong; the message names the place. -/
  | listing
  /-- Something cannot be converted. -/
  | conversion
  /-- The command was used wrongly, or a file is missing or forbidden. -/
  | usage
  /-- Anything else. -/
  | internal
deriving DecidableEq, Repr

/-- The exit code of a failure (`ExitCode`). -/
def FailureKind.exitCode : FailureKind → Nat
  | .listing => 1
  | .conversion => 1
  | .usage => 2
  | .internal => 3

/-- The report of a failure (`handle_cli_exception`). A label names the kind of conversion. -/
def FailureKind.report (kind : FailureKind) (label : List Char) (message : List Char) : List Char :=
  match kind with
  | .listing => message ++ ['\n']
  | .conversion =>
    (if label.isEmpty then "Error: ".toList else label ++ " error: ".toList) ++ message ++ ['\n']
  | .usage => "Error: ".toList ++ message ++ ['\n']
  | .internal => "Internal error: ".toList ++ message ++ ['\n']

/-- What stops a command. -/
inductive CommandFailure where
  /-- A listing has no tape image. -/
  | listing (failure : EncodingFailure)
  /-- A program name cannot be stored. -/
  | programName (failure : Cassette.NameFailure)
  /-- A file is no tape image. -/
  | image (failure : Image.TooShort)
  /-- There is no image library. -/
  | noPainter
  /-- A listing is not valid as text. -/
  | notText
  /-- A path without a name cannot be given an ending. -/
  | unnamed (path : Path)
  /-- The host refuses something. -/
  | host (error : HostError)
deriving DecidableEq, Repr

namespace CommandFailure

/-- A listing that cannot be read from its file. -/
def ofLoad : LoadFailure HostError → CommandFailure
  | .file error => .host error
  | .notText => .notText

/-- Whose fault a failure is. Of the errors of the host, a missing or forbidden file is the user's mistake. -/
def kind : CommandFailure → FailureKind
  | .listing (.invalid _) => .listing
  | .listing (.unreadable _) => .listing
  | .listing (.tooLarge _) => .conversion
  | .listing (.layout _) => .conversion
  | .listing .unknownSymbol => .internal
  | .listing .numeralTooLong => .internal
  | .programName _ => .conversion
  | .image _ => .conversion
  | .noPainter => .conversion
  | .notText => .internal
  | .unnamed _ => .internal
  | .host error =>
    match error.kind with
    | .notFound => .usage
    | .notPermitted => .usage
    | .other => .internal

/-- What a failure says. -/
def message : CommandFailure → List Char
  | .listing failure => failure.message
  | .programName failure => failure.message
  | .image failure => failure.message
  | .noPainter => "Pillow is required for screen rendering (pip install Pillow)".toList
  | .notText => "The listing is not valid UTF-8".toList
  | .unnamed path => "PosixPath(".toList ++ Text.quoted path.text ++ ") has an empty name".toList
  | .host error => error.message

end CommandFailure

end TapeBasic
