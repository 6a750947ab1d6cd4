import Conveyor.Cache.Store
import Conveyor.Job.Workspace

/-!
The life of a job: the key of its cache, restoring, the workspace, its commands, and a save. The key
is the one from before any command ran. A save after a failed command never hides that failure. What
happens is told on the way; where it cannot be told, the job fails.
-/

namespace Conveyor

structure JobSetting (σ : Type) where
  store : Store σ
  runner : Runner σ
  project : Location
  base : Environment
  globals : Variables := []
  keep : Option Int := none

variable {σ : Type}

namespace JobSetting

/-- The key of a job's cache; that an input is missing is reported with the job's name. -/
def resolveKey (g : JobSetting σ) (job : Job) (c : CacheSpec) (t : FileTree) :
    Except JobFailure String :=
  match c.resolveKey t g.project with
  | .error (.error (.missingCacheInput path _)) =>
    .error (.error (.missingCacheInput path (some job.name)))
  | answer => answer

/-- Restores the cache of a job: its key, and whether there was something to restore. -/
def restore (g : JobSetting σ) (tell : Notice → JobStep σ Unit) (job : Job) (c : CacheSpec) :
    JobStep σ (String × Bool) := do
  let key ← JobStep.ask (g.resolveKey job c)
  let restored ← JobStep.ofAction (g.store.restoreCache c g.project key)
  tell (if restored.hit then .cacheHit job.name key
    else .cacheMiss job.name key restored.reason)
  return (key, restored.hit)

/-- What a job sees before its own variables. -/
def environment (g : JobSetting σ) (job : Job) : Environment :=
  g.base.putAll [("CI_JOB_NAME", job.name), ("CI_JOB_STAGE", job.stage)]

def runTold (g : JobSetting σ) (tell : Notice → JobStep σ Unit) (job : Job) (w : Workspace)
    (command : String) : JobStep σ CommandResult := do
  tell (.command job.name command)
  JobStep.ofAction (g.runner command w.environment w.project)

/-- The save after a failed command. Its own failure is told and not more; so is a failure to tell of
the save. -/
def saveAfterFailure (g : JobSetting σ) (tell : Notice → JobStep σ Unit) (job : Job) (c : CacheSpec)
    (key : String) : JobStep σ Unit := do
  match ← JobStep.ofAction (Action.attempt (g.store.saveCache c g.project key false)) with
  | .ok true =>
    match ← ExceptT.lift (JobStep.attempt (tell (.cacheSaved job.name key))) with
    | .ok () => pure ()
    | .error f => tell (.cacheSaveFailed job.name key f.report)
  | .ok false => pure ()
  | .error f => tell (.cacheSaveFailed job.name key f.report)

/-- Prunes the scope of a cache if the run keeps a limited number. -/
def prune (g : JobSetting σ) (c : CacheSpec) : JobStep σ Unit := do
  match g.store.prune, g.keep with
  | some prune, some keep => if keep ≠ 0 then JobStep.ofAction (prune c.scope keep)
  | _, _ => pure ()

def saveAfterSuccess (g : JobSetting σ) (tell : Notice → JobStep σ Unit) (job : Job) (c : CacheSpec)
    (key : String) : JobStep σ Unit := do
  if ← JobStep.ofAction (g.store.saveCache c g.project key true) then
    tell (.cacheSaved job.name key)
    g.prune c

/-- Runs the commands of a job; `cache` is what it caches and the key of it. -/
def runAndSave (g : JobSetting σ) (tell : Notice → JobStep σ Unit) (job : Job)
    (cache : Option (CacheSpec × String)) (w : Workspace) : JobStep σ Unit := do
  match ← ExceptT.lift (JobStep.attempt (runCommands (g.runTold tell job w) job)) with
  | .ok () =>
    match cache with
    | some (c, key) => g.saveAfterSuccess tell job c key
    | none => pure ()
  | .error failure =>
    match failure, cache with
    | .error (.command _ _), some (c, key) => g.saveAfterFailure tell job c key
    | _, _ => pure ()
    throw failure

/-- Runs a job, which tells what happens in some way. -/
def runJobTelling (g : JobSetting σ) (tell : Notice → JobStep σ Unit) (job : Job) :
    JobStep σ JobResult := do
  tell (.jobStarted job.name)
  let restored ← match job.cache with
    | some c => (fun (key, hit) => some (c, key, hit)) <$> g.restore tell job c
    | none => pure none
  let w ← JobStep.prepare job (g.environment job) g.globals g.project
  g.runAndSave tell job (restored.map fun (c, key, _) => (c, key)) w
  tell (.jobSucceeded job.name)
  return {
    name := job.name, stage := job.stage, status := .success
    cacheKey := restored.map fun (_, key, _) => key
    cacheHit := restored.any fun (_, _, hit) => hit
    allowFailure := job.allowFailure }

def runJob (g : JobSetting σ) (job : Job) : JobStep σ JobResult := g.runJobTelling JobStep.tell job

def failedResult (job : Job) (f : JobFailure) : JobResult where
  name := job.name
  stage := job.stage
  status := .failed
  reason := f.message
  failure := some f.kind
  exitCode := f.exitCode
  allowFailure := job.allowFailure

/-- Brings a job to its end; whatever its failure, the answer is a result. -/
def isolate (job : Job) (step : JobStep σ JobResult) : StateM (Session σ) JobResult := do
  match ← JobStep.attempt step with
  | .ok result => return result
  | .error f =>
    modify (·.tell (.jobFailed job.name f.message f.exitCode f.output))
    return failedResult job f

def runIsolated (g : JobSetting σ) (job : Job) : StateM (Session σ) JobResult :=
  isolate job (g.runJob job)

/-- Runs a job that is told by a printer. Where the printer cannot tell that the job has failed, there is
no result. -/
def runPrinted (g : JobSetting σ) (printer : Printer σ) (job : Job) : RunStep σ JobResult := do
  match ← RunStep.ofState (JobStep.attempt (g.runJobTelling printer.inJob job)) with
  | .ok result => return result
  | .error f =>
    printer (.jobFailed job.name f.message f.exitCode f.output)
    return failedResult job f

end JobSetting

end Conveyor
