import Conveyor.Environment
import Conveyor.Session

/-!
Commands of a job. A runner may do anything to the world and may fault; commands run one after the
other, and none runs after one that exits with a status other than zero.
-/

namespace Conveyor

structure CommandResult where
  command : String
  exitCode : Int
  stdout : String := ""
  stderr : String := ""
  deriving DecidableEq, Repr

def CommandResult.isOk (r : CommandResult) : Bool := r.exitCode = 0

abbrev Runner (σ : Type) := String → Environment → Location → Action σ CommandResult

/-- Runs commands in order up to the first that fails. -/
def firstFailure {m : Type → Type} [Monad m] (run : String → m CommandResult) :
    List String → m (Option CommandResult)
  | [] => pure none
  | command :: rest => do
    let r ← run command
    if r.isOk then firstFailure run rest else return some r

def CommandResult.failure (r : CommandResult) (job : String) : CommandFailure :=
  ⟨job, r.command, r.exitCode, r.stdout, r.stderr⟩

/-- Runs the commands of a phase; the job fails with the first command that does. -/
def runPhase {σ : Type} (run : String → JobStep σ CommandResult) (job : String) (phase : Phase)
    (commands : List String) : JobStep σ Unit := do
  match ← firstFailure run commands with
  | some r => throw (.error (.command phase (r.failure job)))
  | none => pure ()

/-- The setup commands of a job, and then its script. -/
def runCommands {σ : Type} (run : String → JobStep σ CommandResult) (job : Job) :
    JobStep σ Unit := do
  runPhase run job.name .setup job.beforeScript
  runPhase run job.name .script job.script

end Conveyor
