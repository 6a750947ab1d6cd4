import Conveyor.Value.Text

/-!
Pipelines: named stages in order, and jobs that each belong to a stage. `jobsInOrder` sorts the jobs
by the position of their stage and keeps the declared order within a stage.
-/

namespace Conveyor

inductive SavePolicy
  | onSuccess
  | onFailure
  | always
  | unknown (word : String)
  deriving DecidableEq, Repr

namespace SavePolicy

def word : SavePolicy → String
  | .onSuccess => "on_success"
  | .onFailure => "on_failure"
  | .always => "always"
  | .unknown w => w

def known : List SavePolicy := [.onSuccess, .onFailure, .always]

def ofWord (w : String) : SavePolicy := (known.find? (·.word == w)).getD (.unknown w)

def isKnown : SavePolicy → Bool
  | .unknown _ => false
  | _ => true

end SavePolicy

/-- What a job caches. The key is the digest of `files` in their order, or `key` if there are none;
`scope` is put before it. `paths` are what is saved and restored. -/
structure CacheSpec where
  files : List String := []
  scope : Option String := none
  paths : List String := []
  policy : SavePolicy := .onSuccess
  key : Option String := none
  deriving DecidableEq, Repr

/-- The kinds of events that a job runs for. No allowed kind means any; excluded kinds win. -/
structure TriggerRule where
  allowed : List String := []
  excluded : List String := []
  deriving DecidableEq, Repr

/-- Texts of variables. A name is a text, unless a pipeline is built from untyped names. -/
abbrev Variables := Table Scalar String

namespace Variables

def ofTexts (entries : List (String × String)) : Variables :=
  Table.ofEntries (entries.map fun (k, v) => (.str k, v))

def layer (v : Variables) : List (String × String) := v.map fun (k, v) => (k.text, v)

end Variables

structure Job where
  name : String
  stage : String
  script : List String
  beforeScript : List String := []
  cache : Option CacheSpec := none
  trigger : Option TriggerRule := none
  bindings : Variables := []
  templates : List String := []
  allowFailure : Bool := false
  deriving Repr

def defaultJobStage : String := "test"

def defaultStages : List String := ["build", "test", "deploy"]

structure Stage where
  name : String
  position : Int
  deriving DecidableEq, Repr

def Stage.number (names : List String) : List Stage :=
  (names.zipIdx).map fun (n, i) => ⟨n, i⟩

/-- The names that occur more than once, sorted and each once. -/
def repeatedNames (names : List String) : List String :=
  ((names.filter fun n => 1 < names.count n).mergeSort fun a b => decide (a ≤ b)).eraseDups

structure Pipeline where
  stages : List Stage
  jobs : List Job
  bindings : Variables := []
  deriving Repr

namespace Pipeline

def stage? (p : Pipeline) (name : String) : Option Stage := p.stages.find? (·.name == name)

def job? (p : Pipeline) (name : String) : Option Job := p.jobs.find? (·.name == name)

/-- The position of a stage; the last stage of a name counts. -/
def position? (p : Pipeline) (stage : String) : Option Int :=
  (p.stages.reverse.find? (·.name == stage)).map (·.position)

/-- The jobs sorted by stage, or the first stage that a job names and the pipeline does not. -/
def jobsInOrder (p : Pipeline) : Except String (List Job) := do
  let placed ← p.jobs.mapM fun j =>
    match p.position? j.stage with
    | some n => .ok (n, j)
    | none => .error j.stage
  return (placed.mergeSort fun a b => a.1 ≤ b.1).map (·.2)

def jobsByStage (p : Pipeline) : Except String (List (Stage × List Job)) := do
  let ordered ← p.jobsInOrder
  return p.stages.map fun s => (s, ordered.filter (·.stage == s.name))

end Pipeline

end Conveyor
