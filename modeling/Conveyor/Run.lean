import Conveyor.Cache.Directory
import Conveyor.Job.Lifecycle

/-!
Runs of a pipeline. Stages come one after the other; within a stage, jobs that the event does not
start are skipped, and the others run in the order of a schedule. Once a job has failed that was not
allowed to, a run that fails fast skips what later stages would run. A run is told by a printer; one that
cannot tell of a stage, of a skipped job or of a failed job ends the run.
-/

namespace Conveyor

structure Schedule where
  order : Stage → List Job → List Job
  perm : ∀ stage jobs, (order stage jobs).Perm jobs

def Schedule.declared : Schedule := ⟨fun _ jobs => jobs, fun _ jobs => .refl jobs⟩

/-- The reason of a job that is skipped for a failure before it. -/
def blockedReason : String := "upstream failure"

def defaultCacheDirectory : String := ".stageci/cache"

structure RunOptions (σ : Type) where
  store : Option (Store σ) := none
  runner : Runner σ
  environment : Environment
  cacheVariable : String := "CI_CACHE_DIR"
  failFast : Bool := true
  keep : Option Int := none
  schedule : Schedule := .declared

abbrev Results := Table String JobResult

abbrev Verdicts := Table String PlanEntry

def skippedResult (job : Job) (reason : String) : JobResult :=
  { name := job.name, stage := job.stage, status := .skipped, reason }

/-- Why a job of a stage does not run: the reason that is told and the reason in its result. -/
def skipReason? (verdicts : Verdicts) (blocked : Bool) (job : Job) : Option (String × String) :=
  match verdicts.get? job.name with
  | some v =>
    if !v.eligible then some (v.reason, "trigger: " ++ v.reason)
    else if blocked then some (blockedReason, blockedReason)
    else none
  | none => none

variable {σ : Type}

def skipJobs (printer : Printer σ) (verdicts : Verdicts) (blocked : Bool) (results : Results) :
    List Job → RunStep σ Results
  | [] => pure results
  | job :: rest => do
    match skipReason? verdicts blocked job with
    | some (told, reason) =>
      printer (.jobSkipped job.name told)
      skipJobs printer verdicts blocked (results.put job.name (skippedResult job reason)) rest
    | none => skipJobs printer verdicts blocked results rest

/-- Runs the jobs of a stage. All of them come to their end, also if there is one without a result. -/
def runJobs (printer : Printer σ) (g : JobSetting σ) (results : Results) : List Job → RunStep σ Results
  | [] => pure results
  | job :: rest => do
    match ← RunStep.ofState (RunStep.attempt (g.runPrinted printer job)) with
    | .ok result => runJobs printer g (results.put job.name result) rest
    | .error f =>
      let _ ← RunStep.ofState (RunStep.attempt (runJobs printer g results rest))
      throw f

/-- One of some jobs has failed and was not allowed to. -/
def anyBlocking (results : Results) (jobs : List Job) : Bool :=
  jobs.any fun job => (results.get? job.name).any (·.isBlocking)

/-- Runs stages in order; `blocked` tells whether a job before them has failed for good. -/
def runStages (printer : Printer σ) (g : JobSetting σ) (schedule : Schedule) (failFast : Bool)
    (verdicts : Verdicts) (blocked : Bool) (results : Results) :
    List (Stage × List Job) → RunStep σ Results
  | [] => pure results
  | (stage, jobs) :: rest => do
    let results ← skipJobs printer verdicts blocked results jobs
    let runnable := jobs.filter fun job => (skipReason? verdicts blocked job).isNone
    if runnable.isEmpty then runStages printer g schedule failFast verdicts blocked results rest
    else
      printer (.stage stage.name (runnable.map (·.name)))
      let results ← runJobs printer g results (schedule.order stage runnable)
      let blocked := blocked || (failFast && anyBlocking results runnable)
      runStages printer g schedule failFast verdicts blocked results rest

def collect (results : Results) (jobs : List Job) : Except Fault RunReport := do
  let found ← jobs.mapM fun job =>
    match results.get? job.name with
    | some r => .ok r
    | none => .error (.noSuchKey job.name)
  return ⟨found⟩

/-- A question that fails by the name of a stage that is not there. -/
def needStage {α : Type} (answer : Except String α) : Except Fault α := answer.mapError .noSuchKey

def Verdicts.ofPlan (plan : List PlanEntry) : Verdicts :=
  Table.ofEntries (plan.map fun v => (v.job.name, v))

/-- What the jobs of a run share: the store, which is opened in the project if none is given, and what
every job sees in its environment. -/
def RunOptions.setting (options : RunOptions σ) (p : Pipeline) (e : Event) (project : Location) :
    Action σ (JobSetting σ) := do
  let project ← Action.ask (·.resolve project)
  let standard := project ++ pathParts defaultCacheDirectory
  let store ← match options.store with
    | some s => pure s
    | none => DirectoryStore.openAt standard
  let cacheRoot ← Action.ask (·.resolve (store.root.getD standard))
  let base := options.environment.ofRun (Location.text project) e.kind options.cacheVariable
    (Location.text cacheRoot) e.sha e.ref
  return {
    store, runner := options.runner, project, base
    globals := p.bindings, keep := options.keep }

/-- A run that is told by a printer. -/
def Pipeline.runPrinted (p : Pipeline) (printer : Printer σ) (e : Event) (project : Location)
    (options : RunOptions σ) : RunStep σ RunReport := do
  let setting ← RunStep.ofAction (options.setting p e project)
  let plan ← MonadExcept.ofExcept (needStage (p.plan e))
  let groups ← MonadExcept.ofExcept (needStage p.jobsByStage)
  let results ←
    runStages printer setting options.schedule options.failFast (.ofPlan plan) false [] groups
  let ordered ← MonadExcept.ofExcept (needStage p.jobsInOrder)
  MonadExcept.ofExcept (collect results ordered)

def Pipeline.run (p : Pipeline) (e : Event) (project : Location) (options : RunOptions σ) :
    RunStep σ RunReport :=
  p.runPrinted RunStep.tell e project options

end Conveyor
