import TapeBasic.Command.Report

/-!
# What a host can be trusted with

Nothing is known of a host but what is said of it. These are the properties that a host can have of its own, each of
them about one of its operations.

* `FileSystem.Framed fs contents target`: a write touches only the file to which its path leads.
* `FileSystem.FailsClean fs`: a write that fails changes nothing.
* `FileSystem.Keeps fs files path`: a file that is written under the path can be read back.
* `Console.TakesAll console`: all that is printed is taken.
* `Console.Logs console k k'`: from one state of the console to another by lines of the log alone.
* `ArgumentReader.Faithful reader fs`: the paths of a tape image to be made are spelled by arguments, and a file is
  listed when it is asked for by its path (`click.Path`). A shell that asks for completions gets those instead.
-/
namespace TapeBasic

namespace FileSystem

variable {φ : Type} (fs : FileSystem φ)

/-- What is written under the path is a file that can be read again, and no device. -/
def Keeps (files : φ) (path : Path) : Prop :=
  ∀ bytes written, fs.write files path bytes = (none, written) → fs.read written path = .ok bytes

end FileSystem

namespace Console

variable {κ : Type} (console : Console κ)

/-- The second state of the console comes from the first by lines of the log alone. -/
inductive Logs : κ → κ → Prop where
  | nothing (k : κ) : Logs k k
  | line {k k' : κ} (text : List Char) (others : Logs (console.log k text) k') : Logs k k'

end Console

/-! ## Argument lists -/

/-- The argument lists that ask for the listing of a file: its path behind the name of the command, and behind two
dashes if it starts with a dash. -/
inductive Command.DecodesFile (path : List Char) : List (List Char) → Prop where
  | plain (word : path.head? ≠ some '-') : DecodesFile path ["decode".toList, path]
  | behindDashes : DecodesFile path ["decode".toList, "--".toList, path]

/-- The variable of the environment by which a shell asks for completions. -/
def completionVariable : String := "_ZXBAS_COMPLETE"

/-- The reader takes texts for the paths that they spell. -/
structure ArgumentReader.Faithful {φ κ : Type} (reader : ArgumentReader φ κ) (fs : FileSystem φ) : Prop where
  /-- The paths of a tape image to be made are spelled by texts. -/
  spelled : ∀ {env args files k e k'}, reader env args files k = (.call (.encode e), k') →
    (∃ text, e.source = Path.ofText text) ∧ ∀ output ∈ e.output, ∃ text, output = Path.ofText text
  /-- A file that can be read is listed when it is asked for by the text of its path. -/
  decodes : ∀ {env text args files bytes} (k), Settings.value? env completionVariable = none →
    (Path.ofText text).text = text → fs.read files (Path.ofText text) = .ok bytes →
      Command.DecodesFile text args →
      reader env args files k = (.call (.decode ⟨Path.ofText text, none, false, false⟩), k)

end TapeBasic
