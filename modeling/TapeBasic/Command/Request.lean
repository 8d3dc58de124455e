import TapeBasic.Host
import TapeBasic.Settings

/-!
# What the tool is asked to do

The tool has four commands: `encode` makes a tape image of a listing, `decode` a listing of a tape image, `info` shows
what is in an image, and `screen` draws its screen. How an argument list is read is a parameter: it calls a command, or
it ends the tool, with a text about its use or its version. Whoever reads the arguments may look at the files and print,
but changes no file.
-/
namespace TapeBasic

/-- The arguments of `encode`. -/
structure EncodeArguments where
  source : Path
  output : Option Path
  programName : Option (List Char)
  includeFolder : Option Path
  verbose : Bool

/-- The arguments of `decode`. -/
structure DecodeArguments where
  image : Path
  output : Option Path
  bracketed : Bool
  verbose : Bool

/-- The arguments of `info`. -/
structure InfoArguments where
  image : Path
  verbose : Bool

/-- The arguments of `screen`. -/
structure ScreenArguments where
  image : Path
  output : Option Path
  scale : Option Int
  verbose : Bool

/-- What the tool is asked to do. -/
inductive Command where
  | encode (args : EncodeArguments)
  | decode (args : DecodeArguments)
  | info (args : InfoArguments)
  | screen (args : ScreenArguments)

/-- What becomes of an argument list. -/
inductive Invocation where
  /-- A command is called. -/
  | call (command : Command)
  /-- The tool ends with this exit code. -/
  | exit (code : Nat)

/-- Reads an argument list, in an environment and before some files, with what is printed on the way. -/
abbrev ArgumentReader (φ κ : Type) := Settings.Environment → List (List Char) → φ → κ → Invocation × κ

namespace Command

/-- Whether a command shows all of its log. -/
def verbose : Command → Bool
  | .encode args => args.verbose
  | .decode args => args.verbose
  | .info args => args.verbose
  | .screen args => args.verbose

/-- What a command calls the conversion when it fails. -/
def label : Command → List Char
  | .encode _ => "Encoding".toList
  | .decode _ => "Decoding".toList
  | .info _ => []
  | .screen _ => []

end Command

end TapeBasic
