import TapeBasic.Command.Request
import TapeBasic.Session.Directory
import TapeBasic.Session.Options
import TapeBasic.Session.Terminal

/-!
# Reading argument lists

One way to read the argument list of the tool before a directory. What it refuses is a mistake in the usage of the tool
or a path that no system takes.

* `Session.parse` says what an argument list asks for.
* `Session.arguments` is the reader of argument lists.
-/
namespace TapeBasic.Session

/-- The options of the tool. -/
inductive OptionName where
  | output
  | programName
  | includeFolder
  | bracketed
  | scale
  | verbose
  | version
  | help
deriving DecidableEq, Repr

/-- A rule for one option of the tool. -/
abbrev Rule := Options.OptionRule OptionName

/-- The file to write. -/
def outputRule : Rule := ⟨.output, some 'o', "--output", true⟩
/-- The name under which a cassette image holds the program. -/
def nameRule : Rule := ⟨.programName, none, "--p81", true⟩
/-- The folder of included files. -/
def includeRule : Rule := ⟨.includeFolder, some 'I', "--include-dir", true⟩
/-- Keywords in brackets everywhere. -/
def bracketedRule : Rule := ⟨.bracketed, some 'b', "--bracketized", false⟩
/-- The scale of a picture. -/
def scaleRule : Rule := ⟨.scale, some 's', "--scale", true⟩
/-- The whole log. -/
def verboseRule : Rule := ⟨.verbose, some 'v', "--verbose", false⟩
/-- The version of the tool. -/
def versionRule : Rule := ⟨.version, some 'V', "--version", false⟩
/-- How the tool is used. -/
def helpRule : Rule := ⟨.help, none, "--help", false⟩

/-- The options of a command. -/
def rulesOf (command : List Char) : Option (List Rule) :=
  if command == "encode".toList then
    some [outputRule, nameRule, includeRule, verboseRule, helpRule]
  else if command == "decode".toList then some [outputRule, bracketedRule, verboseRule, helpRule]
  else if command == "info".toList then some [verboseRule, helpRule]
  else if command == "screen".toList then some [outputRule, scaleRule, verboseRule, helpRule]
  else none

/-- The options and words of a command. -/
abbrev ParsedOptions := Options.Parsed OptionName

/-- Why an argument list is refused. -/
inductive Refusal where
  /-- The tool is not used in this way. -/
  | usage
  /-- A path holds a null character, and nothing can be found out about it. -/
  | nullCharacter
deriving DecidableEq, Repr

/-- What an argument list asks for. -/
inductive Request where
  | command (command : Command)
  | version
  | help

/-- Refuses what does not pass a check as a mistake in the usage. -/
def require (check : Bool) : Except Refusal Unit := if check then .ok () else .error .usage

/-- Refuses a path that does not pass a check. -/
def requirePath (text : List Char) (check : Bool) : Except Refusal Unit :=
  if text.contains '\x00' then .error .nullCharacter else require check

/-- The scale that a text spells, a whole number in range. -/
def scale? (text : List Char) : Option Int := (Text.integer? text).filter Settings.isScale

/-- Checks the value of an option: the output must be no folder, the folder of included files must be
one, and the scale must be in range. -/
def checkValue (d : Directory) (text : List Char) : OptionName → Except Refusal Unit
  | .output => requirePath text (!d.isFolder text)
  | .includeFolder => requirePath text (d.isFolder text)
  | .scale => require (scale? text).isSome
  | _ => .ok ()

/-- Checks the options in the order in which they are given. Of a repeated option the last value counts. -/
def checkOptions (d : Directory) (p : ParsedOptions) : List (OptionName × List Char) →
    Except Refusal Unit
  | [] => .ok ()
  | (option, text) :: rest =>
    match checkValue d ((p.value? option).getD text) option with
    | .error refusal => .error refusal
    | .ok () => checkOptions d p rest

/-- The one word of a command, which must be a file. It is checked behind all options. -/
def inputFile (d : Directory) (p : ParsedOptions) : Except Refusal Path :=
  match p.words with
  | [] => .error .usage
  | word :: others =>
    match requirePath word (d.isFile word) with
    | .error refusal => .error refusal
    | .ok () => if others.isEmpty then .ok (Path.ofText word) else .error .usage

/-- The command of a name, an input file and checked options. -/
def ofOptions (command : List Char) (input : Path) (p : ParsedOptions) : Command :=
  let verbose := p.has .verbose
  let output := (p.value? .output).map Path.ofText
  if command == "encode".toList then
    .encode ⟨input, output, p.value? .programName, (p.value? .includeFolder).map Path.ofText, verbose⟩
  else if command == "decode".toList then .decode ⟨input, output, p.has .bracketed, verbose⟩
  else if command == "info".toList then .info ⟨input, verbose⟩
  else .screen ⟨input, output, (p.value? .scale).bind scale?, verbose⟩

/-- The command of a name and its options. -/
def ofParsed (d : Directory) (command : List Char) (p : ParsedOptions) : Except Refusal Request :=
  if p.has .help then .ok .help
  else
    match checkOptions d p p.options with
    | .error refusal => .error refusal
    | .ok () =>
      match inputFile d p with
      | .error refusal => .error refusal
      | .ok input => .ok (.command (ofOptions command input p))

/-- What a general option asks for instead of a command; of several the first counts. -/
def ofGeneral? (p : ParsedOptions) : Option Request :=
  match p.options with
  | (.version, _) :: _ => some .version
  | (.help, _) :: _ => some .help
  | _ => none

/-- Reads the general options in front of a command. -/
def parseGeneral (args : List (List Char)) : Option ParsedOptions :=
  Options.parse [versionRule, helpRule] true args {}

/-- Reads the name of a command and what follows it. Where a command should stand, a general option is
taken as well. -/
def parseCommand (d : Directory) : List (List Char) → Except Refusal Request
  | [] => .error .usage
  | command :: rest =>
    match rulesOf command with
    | none =>
      match (parseGeneral (command :: rest)).bind ofGeneral? with
      | none => .error .usage
      | some general => .ok general
    | some rules =>
      match Options.parse rules false rest {} with
      | none => .error .usage
      | some parsed => ofParsed d command parsed

/-- Reads an argument list. -/
def parse (d : Directory) (args : List (List Char)) : Except Refusal Request :=
  match parseGeneral args with
  | none => .error .usage
  | some general =>
    match ofGeneral? general with
    | some command => .ok command
    | none => parseCommand d general.words

/-! ## What becomes of an argument list -/

/-- The name and the version of the tool. -/
def versionText : List Char := "zxbas, version 1.0.0\n".toList

/-- How the tool is used. -/
def helpText : List Char :=
  [ "Usage: zxbas [OPTIONS] COMMAND [ARGS]...",
    "",
    "  encode [-o FILE] [--p81 NAME] [-I DIR] [-v] SOURCE",
    "  decode [-o FILE] [-b] [-v] IMAGE",
    "  info [-v] IMAGE",
    "  screen [-o FILE] [-s SCALE] [-v] IMAGE" ].flatMap fun text => text.toList ++ ['\n']

/-- Reads an argument list. -/
def arguments : ArgumentReader Directory Terminal := fun _ args d t =>
  match parse d args with
  | .ok (.command command) => (.call command, t)
  | .ok .version => (.exit 0, t.add .out versionText)
  | .ok .help => (.exit 0, t.add .out helpText)
  | .error .usage => (.exit 2, t.add .err helpText)
  | .error .nullCharacter => (.exit 1, t)

end TapeBasic.Session
