import Conveyor.Files.Fault

/-!
How a step of a job fails: by an error that jobs declare, or by a fault of what the step works with.
-/

namespace Conveyor

inductive JobFailure
  | error (e : JobError)
  | fault (f : Fault)
  deriving DecidableEq, Repr

namespace JobFailure

/-- The failure of a step that a fault ends. -/
def ofFault : Fault → JobFailure
  | .declared e => .error e
  | f => .fault f

def kind : JobFailure → FailureKind
  | .error e => e.kind
  | .fault _ => .fault

def message : JobFailure → String
  | .error e => e.message
  | .fault f => f.report

/-- The failure with the name of its class. -/
def report : JobFailure → String
  | .error e => (Fault.declared e).report
  | .fault f => f.report

def exitCode : JobFailure → Option Int
  | .error e => e.exitCode
  | .fault _ => none

def output : JobFailure → Option String
  | .error e => e.output
  | .fault _ => none

end JobFailure

end Conveyor
