import Conveyor.Text.Quoted
import Conveyor.Pipeline.Basic

/-!
How jobs end. A failed job that is not allowed to fail blocks; the kinds of the blocking failures
decide the exit code of a run.
-/

namespace Conveyor

structure CommandFailure where
  job : String
  command : String
  exitCode : Int
  stdout : String := ""
  stderr : String := ""
  deriving DecidableEq, Repr

/-- Which of a job's command lists a command belongs to. -/
inductive Phase
  | command
  | setup
  | script
  deriving DecidableEq, Repr

def Phase.word : Phase → String
  | .command => "command"
  | .setup => "setup"
  | .script => "script"

/-- Why a job fails, other than by a fault of what it works with. -/
inductive JobError
  | general (text : String)
  | missingCacheInput (path : String) (job : Option String)
  | provisioning (text : String)
  | command (phase : Phase) (failure : CommandFailure)
  deriving DecidableEq, Repr

inductive FailureKind
  | general
  | missingCacheInput
  | provisioning
  | setup
  | script
  | fault
  | other (word : String)
  deriving DecidableEq, Repr

namespace FailureKind

def word : FailureKind → String
  | .general => "job_error"
  | .missingCacheInput => "missing_cache_input"
  | .provisioning => "provisioning_error"
  | .setup => "setup_failure"
  | .script => "script_failure"
  | .fault => "internal_error"
  | .other w => w

def known : List FailureKind :=
  [.general, .missingCacheInput, .provisioning, .setup, .script, .fault]

def ofWord (w : String) : FailureKind := (known.find? (·.word == w)).getD (.other w)

end FailureKind

namespace JobError

def kind : JobError → FailureKind
  | .general _ => .general
  | .missingCacheInput _ _ => .missingCacheInput
  | .provisioning _ => .provisioning
  | .command .command _ => .general
  | .command .setup _ => .setup
  | .command .script _ => .script

def className : JobError → String
  | .general _ => "JobError"
  | .missingCacheInput _ _ => "MissingCacheInputError"
  | .provisioning _ => "ProvisioningError"
  | .command .command _ => "CommandFailure"
  | .command .setup _ => "SetupFailure"
  | .command .script _ => "ScriptFailure"

def message : JobError → String
  | .general text | .provisioning text => text
  | .missingCacheInput path job =>
    let place := match job with
      | some j => if j.isEmpty then "" else "[" ++ j ++ "] "
      | none => ""
    place ++ "cache key input file not found: " ++ path
  | .command phase f =>
    "[" ++ f.job ++ "] " ++ phase.word ++ " command failed (exit=" ++ toString f.exitCode ++ "): " ++
      f.command

def exitCode : JobError → Option Int
  | .command _ f => some f.exitCode
  | _ => none

/-- What the failed command printed: its error output, or else its output. -/
def output : JobError → Option String
  | .command _ f => some (if f.stderr.isEmpty then f.stdout else f.stderr)
  | _ => none

end JobError

inductive Status
  | success
  | failed
  | skipped
  | other (word : String)
  deriving DecidableEq, Repr

namespace Status

def word : Status → String
  | .success => "success"
  | .failed => "failed"
  | .skipped => "skipped"
  | .other w => w

def known : List Status := [.success, .failed, .skipped]

def ofWord (w : String) : Status := (known.find? (·.word == w)).getD (.other w)

end Status

structure JobResult where
  name : String
  stage : String
  status : Status
  reason : String := ""
  failure : Option FailureKind := none
  exitCode : Option Int := none
  cacheKey : Option String := none
  cacheHit : Bool := false
  allowFailure : Bool := false
  deriving DecidableEq, Repr

def JobResult.isBlocking (r : JobResult) : Bool := r.status = .failed && !r.allowFailure

/-- The report on a run: one result for each job. -/
structure RunReport where
  jobs : List JobResult
  deriving DecidableEq, Repr

namespace RunReport

def result? (r : RunReport) (name : String) : Option JobResult := r.jobs.find? (·.name == name)

def succeeded (r : RunReport) : Bool := !r.jobs.any (·.isBlocking)

def blockingKinds (r : RunReport) : List (Option FailureKind) :=
  (r.jobs.filter (·.isBlocking)).map (·.failure)

/-- Zero for success; else 1 if a script failed, 2 if a setup failed, and 3 for anything else. -/
def exitCode (r : RunReport) : Nat :=
  let kinds := r.blockingKinds
  if kinds.isEmpty then 0
  else if kinds.contains (some .script) then 1
  else if kinds.contains (some .setup) then 2
  else 3

/-- The status of each job; of a repeated name the last. -/
def statuses (r : RunReport) : Table String Status :=
  Table.ofEntries (r.jobs.map fun j => (j.name, j.status))

end RunReport

end Conveyor
