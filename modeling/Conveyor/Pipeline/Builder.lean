import Conveyor.Pipeline.Error
import Conveyor.Shell.Quote
import Conveyor.Value.Whole

/-!
Pipelines written as expressions. A job may take another job as its base, whose fields it has where
it gives none of its own.
-/

namespace Conveyor

open Conveyor.Text

inductive BuildError
  | noPackages
  | badPolicy (word : String)
  | noCommands (job : String)
  deriving DecidableEq, Repr

def BuildError.message : BuildError → String
  | .noPackages => "install_packages() needs at least one package"
  | .badPolicy word => "cache(when=" ++ quoted word ++ ") must be one of " ++ policyChoices
  | .noCommands job => "job(" ++ quoted job ++ ") must have at least one script command"

namespace Build

def installPackages (packages : List String) (quiet : Bool) : Except BuildError String :=
  if packages.isEmpty then .error .noPackages
  else
    let q := if quiet then " -qq" else ""
    .ok ("apt-get update" ++ q ++ " && apt-get install -y" ++ q ++ " --no-install-recommends " ++
      " ".intercalate (packages.map Shell.quoteWord))

/-- The command that clones a repository, unless there is one at the destination. A depth is taken to
have no more digits than may be read, so that it has a text. -/
def fetchSource (url dest : String) (depth : Option Int) (ref : Option String) : String :=
  let depthOption := depth.toList.map fun d => "--depth=" ++ toString d
  let refOption := (ref.toList.filter fun r => !r.isEmpty).map fun r =>
    "--branch " ++ Shell.quoteWord r
  let options := (depthOption ++ refOption).map (· ++ " ")
  let d := Shell.quoteWord dest
  "test -d " ++ d ++ "/.git || git clone " ++ String.join options ++ Shell.quoteWord url ++ " " ++ d

/-- The clone command for an untyped depth, which counts as not given where it is null, zero or empty. -/
def cloneSource (url dest : String) (depth : Value) (ref : Option String) :
    Except WholeError String := do
  let depth ← if depth.isTruthy then some <$> depth.whole else pure none
  return fetchSource url dest depth ref

def cache (paths : List String) (files : List String) (scope : Option String) (policy : String)
    (key : Option String) : Except BuildError CacheSpec :=
  match SavePolicy.ofWord policy with
  | .unknown w => .error (.badPolicy w)
  | p => .ok { files, scope, paths, policy := p, key }

structure JobDraft where
  name : String
  script : List String
  stage : String := defaultJobStage
  beforeScript : Option (List String) := none
  cache : Option CacheSpec := none
  trigger : Option TriggerRule := none
  bindings : List (Scalar × String) := []
  allowFailure : Bool := false

/-- What a job is asked for with. What is not given has no value. -/
structure JobArguments where
  name : String
  script : List String := []
  stage : Option String := none
  beforeScript : Option (List String) := none
  cache : Option CacheSpec := none
  trigger : Option TriggerRule := none
  bindings : Option (List (Scalar × Value)) := none
  allowFailure : Option Bool := none

/-- A stage that is not given is the standard one, and so is whether the job may fail. -/
def JobArguments.draft (a : JobArguments) : JobDraft where
  name := a.name
  script := a.script
  stage := a.stage.getD defaultJobStage
  beforeScript := a.beforeScript
  cache := a.cache
  trigger := a.trigger
  bindings := (a.bindings.getD []).map fun (key, v) => (key, v.text)
  allowFailure := a.allowFailure.getD false

/-- Builds a job, over a base if one is given. -/
def job (d : JobDraft) (base : Option Job) : Except BuildError Job :=
  let script := if d.script.isEmpty then (base.map (·.script)).getD [] else d.script
  if script.isEmpty then .error (.noCommands d.name)
  else .ok {
    name := d.name
    stage := d.stage
    script
    beforeScript := d.beforeScript.getD ((base.map (·.beforeScript)).getD [])
    cache := d.cache.or (base.bind (·.cache))
    trigger := d.trigger.or (base.bind (·.trigger))
    bindings := Table.putAll ((base.map (·.bindings)).getD []) d.bindings
    allowFailure := d.allowFailure }

/-- The first job, from the left, that names no stage or repeats a name. -/
def checkJobs (stageNames : List String) (seen : List String) : List Job → Except LoadError Unit
  | [] => .ok ()
  | j :: rest =>
    if !stageNames.contains j.stage then
      .error (.reference ⟨j.name, .stage, j.stage, stageNames⟩)
    else if seen.contains j.name then .error (DefinitionError.repeatedJob j.name)
    else checkJobs stageNames (j.name :: seen) rest

/-- Builds a pipeline of jobs whose stages are declared and whose names differ. -/
def pipeline (stageNames : List String) (jobs : List Job) (bindings : List (Scalar × String)) :
    Except LoadError Pipeline := do
  match repeatedNames stageNames with
  | [] =>
    checkJobs stageNames [] jobs
    return { stages := Stage.number stageNames, jobs, bindings := Table.ofEntries bindings }
  | repeated => throw (.definition (.repeatedStages repeated))

end Build

end Conveyor
