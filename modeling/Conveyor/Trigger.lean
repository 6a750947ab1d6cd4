import Conveyor.Pipeline.Basic
import Conveyor.Text.Blank
import Conveyor.Text.Lowercase
import Conveyor.Text.Quoted

/-!
Events and the jobs that they start. An event kind has many spellings; `Kind.canonical` folds them
onto one, and all comparisons are made between canonical kinds.
-/

namespace Conveyor

open Conveyor.Text

structure Event where
  kind : String
  ref : Option String := none
  sha : Option String := none
  deriving DecidableEq, Repr

namespace Kind

def aliases : List (String × String) := [
  ("merge_requests", "merge_request"),
  ("merge_request_event", "merge_request"),
  ("mr", "merge_request"),
  ("pushes", "push"),
  ("branches", "push"),
  ("schedules", "schedule"),
  ("tags", "tag"),
  ("triggers", "trigger"),
  ("pipelines", "pipeline")]

/-- The spelling before aliases are looked up: trimmed, in lower case, dashes as underscores. -/
def spelling (kind : String) : String :=
  (lowercase (trim kind)).map fun c => if c = '-' then '_' else c

def canonical (kind : String) : String :=
  (aliases.lookup (spelling kind)).getD (spelling kind)

/-- The name of a kind that jobs see in their environment. -/
def exported (kind : String) : String :=
  if canonical kind = "merge_request" then "merge_request_event" else canonical kind

end Kind

/-- An event whose kind may have any spelling. -/
def Event.ofKind (kind : String) (ref sha : Option String) : Event := ⟨Kind.canonical kind, ref, sha⟩

def kindSet (kinds : List String) : List String := (kinds.map Kind.canonical).eraseDups

def sortedTexts (ss : List String) : List String := ss.mergeSort fun a b => decide (a ≤ b)

namespace TriggerRule

def ofKinds (allowed excluded : List String) : TriggerRule := ⟨kindSet allowed, kindSet excluded⟩

/-- The rule lets a canonical kind pass. -/
def admits (r : TriggerRule) (kind : String) : Bool :=
  !r.excluded.contains kind && (r.allowed.isEmpty || r.allowed.contains kind)

end TriggerRule

namespace Job

def isEligible (j : Job) (e : Event) : Bool :=
  j.trigger.all (·.admits (Kind.canonical e.kind))

def planReason (j : Job) (e : Event) : String :=
  match j.trigger with
  | none => "no trigger rule"
  | some r =>
    let kind := Kind.canonical e.kind
    if j.isEligible e then "event '" ++ kind ++ "' allowed"
    else if r.excluded.contains kind then "event '" ++ kind ++ "' excluded"
    else "event '" ++ kind ++ "' not in " ++ quotedList (sortedTexts r.allowed)

end Job

/-- What an event does with one job. -/
structure PlanEntry where
  job : Job
  eligible : Bool
  reason : String
  deriving Repr

namespace Pipeline

/-- Every job in stage order with its verdict. -/
def plan (p : Pipeline) (e : Event) : Except String (List PlanEntry) := do
  return (← p.jobsInOrder).map fun j => ⟨j, j.isEligible e, j.planReason e⟩

/-- The jobs that run for an event, in stage order. -/
def eligibleJobs (p : Pipeline) (e : Event) : Except String (List Job) := do
  return ((← p.plan e).filter (·.eligible)).map (·.job)

end Pipeline

end Conveyor
