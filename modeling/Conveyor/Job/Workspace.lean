import Conveyor.Environment
import Conveyor.Files.Resolve
import Conveyor.Job.Command

/-!
What a job finds when it starts: its environment, and the directories that its cache paths need. A
path that ends with a slash is a directory of its own; of any other path only the directory above is
needed, since the path may be a file that the job is going to make.
-/

namespace Conveyor

structure Workspace where
  environment : Environment
  project : Location
  directories : List Location
  deriving DecidableEq, Repr

def neededDirectory (t : FileTree) (project : Location) (path : String) : Except Fault Location := do
  let real ← t.resolve (Location.ofPath project (Path.ofText path))
  return if path.endsWith "/" then real else real.parent

def neededDirectories (t : FileTree) (project : Location) (job : Job) :
    Except Fault (List Location) := do
  match job.cache with
  | none => return []
  | some c => return (← c.paths.mapM (neededDirectory t project)).eraseDups

def provisioningFailure (job text : String) : JobFailure :=
  .error (.provisioning ("[" ++ job ++ "] " ++ text))

/-- The failure to make a directory. Only refusals of the file system are failures of the job. -/
def directoryFailure (job : String) (place : Location) : Fault → JobFailure
  | .file e => provisioningFailure job
      ("could not create working directory " ++ Location.text place ++ ": " ++ e.message)
  | f => .fault f

def makeWorkspaceDirectories (job : String) (t : FileTree) :
    List Location → Except JobFailure Unit × FileTree
  | [] => (.ok (), t)
  | place :: rest =>
    match t.isDirectory place, t.hasPath place with
    | .error f, _ => (.error (.fault f), t)
    | .ok true, _ => makeWorkspaceDirectories job t rest
    | .ok false, .error f => (.error (.fault f), t)
    | .ok false, .ok true =>
      (.error (provisioningFailure job
        ("working directory " ++ Location.text place ++ " exists and is not a directory")), t)
    | .ok false, .ok false =>
      match t.makeDirectories place with
      | (.ok (), t) => makeWorkspaceDirectories job t rest
      | (.error f, t) => (.error (directoryFailure job place f), t)

def Job.prepare (job : Job) (base : Environment) (globals : Variables) (project : Location)
    (t : FileTree) : Except JobFailure Workspace × FileTree :=
  let plan : Except JobFailure Workspace := do
    let root ← (t.resolve project).mapError .fault
    if !(← (t.isDirectory root).mapError .fault) then
      throw (provisioningFailure job.name
        ("project directory not available: " ++ Location.text root))
    let environment := base.merge [globals.layer, job.bindings.layer]
    let directories ← (neededDirectories t root job).mapError .fault
    return ⟨environment, root, directories⟩
  match plan with
  | .error f => (.error f, t)
  | .ok w =>
    match makeWorkspaceDirectories job.name t w.directories with
    | (.ok (), t) => (.ok w, t)
    | (.error f, t) => (.error f, t)

variable {σ : Type}

def JobStep.prepare (job : Job) (base : Environment) (globals : Variables) (project : Location) :
    JobStep σ Workspace :=
  ExceptT.mk fun s =>
    let (answer, t) := job.prepare base globals project s.world.files
    (answer, { s with world := { s.world with files := t } })

/-- Prepares a workspace and runs all commands of a job in it. -/
def JobStep.provision (job : Job) (base : Environment) (globals : Variables) (project : Location)
    (run : Runner σ) : JobStep σ Workspace := do
  let w ← JobStep.prepare job base globals project
  runCommands (fun command => JobStep.ofAction (run command w.environment w.project)) job
  return w

end Conveyor
