import TapeBasic.Command.Decode
import TapeBasic.Command.Encode
import TapeBasic.Command.Info
import TapeBasic.Command.Screen

/-!
# Commands

`Host.run` carries a command out, and `Host.perform` does what an argument list asks for.
-/
namespace TapeBasic.Host

variable {φ κ γ : Type}

/-- What a command comes to before some files. -/
def progress (host : Host φ κ γ) (env : Settings.Environment) (files : φ) : Command → Command.Progress
  | .encode args => Command.encodeListing (.ofEnvironment env) (host.files.read files) args
  | .decode args => Command.decodeImage (.ofEnvironment env) (host.files.read files) args
  | .info args => Command.describeImage (host.files.read files) args
  | .screen args => Command.drawScreen (.ofEnvironment env) (host.files.read files) host.painter args

/-- How a command stops. -/
def stop (host : Host φ κ γ) (env : Settings.Environment) (files : φ) (console : κ) (command : Command) :
    Stop φ κ :=
  host.carryOut command.verbose files console (host.progress env files command)

/-- Carries a command out. -/
def run (host : Host φ κ γ) (env : Settings.Environment) (files : φ) (console : κ) (command : Command) :
    Ending φ κ :=
  host.report command.verbose command.label (host.stop env files console command)

/-- Does what an argument list asks for. -/
def perform (host : Host φ κ γ) (env : Settings.Environment) (args : List (List Char)) (files : φ) (console : κ) :
    Ending φ κ :=
  match host.arguments env args files console with
  | (.exit code, console) => ⟨code, files, console⟩
  | (.call command, console) => host.run env files console command

end TapeBasic.Host
