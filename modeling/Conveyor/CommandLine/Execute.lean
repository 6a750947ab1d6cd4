import Conveyor.CommandLine.Help
import Conveyor.Git.Repository
import Conveyor.Pipeline.File
import Conveyor.Run
import Conveyor.Settings
import Conveyor.Shell.Runner

/-!
What the commands do. A command tells what it finds, and ends with an exit status; a definition that
cannot be loaded is fatal for every command.
-/

namespace Conveyor.CommandLine

/-- What surrounds a command: its environment, the directory where it starts, and a directory above
which no repository is looked for. -/
structure Surroundings where
  environment : Environment
  home : String
  directory : Location
  ceiling : Location := []

inductive Ending
  | exit (status : Nat)
  | help (verb : Option Verb)
  | usage (verb : Option Verb) (e : UsageError)
  | settings (e : SettingsError)
  | load (e : FileLoadError)
  | fault (f : Fault)
  deriving Repr

def Ending.status : Ending → Nat
  | .exit status => status
  | .help _ => 0
  | .usage _ _ => 2
  | .settings _ | .load _ | .fault _ => 1

def Ending.printed : Ending → Printed
  | .exit _ => {}
  | .help verb => { out := Printed.joined (helpLines verb) }
  | .usage verb e => { err := Printed.joined (mistakeLines verb e) }
  | .settings e => Printed.ofNotices false [.exception e.message]
  | .load e => Printed.ofNotices false [.exception e.message]
  | .fault f => Printed.ofNotices false [.exception f.text]

variable {σ α : Type}

abbrev CommandStep (σ : Type) := ExceptT Ending (StateM (Session σ))

namespace CommandStep

def tell (n : Notice) : CommandStep σ Unit := modify (·.tell n)

def fail (n : Notice) (status : Nat) : CommandStep σ α := do
  tell n
  throw (.exit status)

def attempt (step : RunStep σ α) : CommandStep σ (Except Fault α) := liftM (ExceptT.run step)

def ask (f : FileTree → Except Fault α) : CommandStep σ α := do
  match f (← get).world.files with
  | .ok a => return a
  | .error f => throw (.fault f)

end CommandStep

open CommandStep

def loadErrorStatus : Nat := 4

/-- The status of a command that misses an input of a cache key. -/
def missingInputStatus : Nat := 3

/-- The notice of a definition file that defines no pipeline. -/
def loadNotice (file : Path) : LoadError → Option Notice
  | .reference r => some (.error "Undefined reference" r.message []
      (some ("Declare the " ++ r.kind.word ++ " or fix the reference in " ++ file.name ++ ".")))
  | .definition e => some (.error "Invalid pipeline definition"
      ("Could not load " ++ file.text) [e.message] none)
  | .merge _ | .value _ => none

def loadDefinition (s : Surroundings) (file : Path) : CommandStep σ Pipeline := do
  match Pipeline.ofFile (← get).world.files ⟨s.home, systemHomes⟩ s.directory file.text with
  | .ok p => return p
  | .error (.load e) =>
    match loadNotice file e with
    | some n => fail n loadErrorStatus
    | none => throw (.load (.load e))
  | .error e => throw (.load e)

def endsAsDirectory (path : String) : Bool :=
  let last := (splitSlashes path.toList).getLastD []
  last.isEmpty || last = ['.']

/-- The directory of a project, which need not be there but must be no file. -/
def projectDirectory (s : Surroundings) (path : String) : CommandStep σ Location := do
  let place := Location.ofPath s.directory (Path.ofText path)
  let _ ← CommandStep.ask fun _ => FileTree.checkNul place
  match (← get).world.files.stat place with
  | .ok (.file _ _) =>
    if !endsAsDirectory path then
      throw (.usage none (.unfitValue OptionForm.project.name
        ("Directory " ++ Text.quoted path ++ " is a file.")))
  | _ => pure ()
  CommandStep.ask (·.resolve place)

def pathFrom (project : Location) (path : String) : Path :=
  Path.join ⟨"/", project⟩ (Path.ofText path)

def definitionName (source : Source) (settings : Settings) : String :=
  source.file.getD settings.definitionFile

/-- The project of a source and the pipeline that is defined for it. -/
def openSource (s : Surroundings) (settings : Settings) (source : Source) :
    CommandStep σ (Location × Pipeline) := do
  let project ← projectDirectory s source.project
  let p ← loadDefinition s (pathFrom project (definitionName source settings))
  return (project, p)

/-- Opens the store of a run, runs the pipeline and tells the results. -/
def runPipeline (settings : Settings) (source : Source) (flags : RunFlags) (base : Environment)
    (project : Location) (p : Pipeline) (e : Event) : RunStep σ Nat := do
  RunStep.tell (.runStarted (definitionName source settings) e.kind p.jobs.length)
  let cache := pathFrom project (flags.cacheDirectory.getD settings.cacheDirectory)
  let store ← RunStep.ofAction (DirectoryStore.openAt cache.parts)
  let report ← p.run e project {
    store := some store
    runner := Shell.runner ((flags.timeout <|> settings.timeout).map .decimal)
    environment := base
    cacheVariable := settings.cacheVariable
    failFast := flags.failFast.getD settings.failFast
    keep := some (flags.keep.getD settings.keep) }
  RunStep.tell (.results report)
  return report.exitCode

/-- Runs a pipeline. A fault of the run itself is told. -/
def run (s : Surroundings) (settings : Settings) (source : Source) (flags : RunFlags) :
    CommandStep σ Unit := do
  let (project, p) ← openSource s settings source
  let ref ← match flags.ref with
    | some ref => pure (some ref)
    | none => CommandStep.ask (Git.currentRef · s.ceiling project)
  let sha ← CommandStep.ask (Git.headSha · s.ceiling project)
  let e := Event.ofKind flags.event ref sha
  match ← attempt (runPipeline settings source flags s.environment project p e) with
  | .ok status => throw (.exit status)
  | .error f => fail (.exception f.text) 1

/-- The key of a cache, or what is said in its place where an input is missing. -/
def plannedKey (t : FileTree) (project : Location) (c : CacheSpec) : Except Fault String :=
  match c.resolveKey t project with
  | .ok key => .ok key
  | .error (.error (.missingCacheInput path _)) => .ok ("<missing input: " ++ path ++ ">")
  | .error (.error e) => .ok e.message
  | .error (.fault f) => .error f

def tellEntry (project : Location) (entry : PlanEntry) : CommandStep σ Unit := do
  let job := entry.job
  if !entry.eligible then tell (.plannedSkip job.name job.stage entry.reason)
  else
    let key ← job.cache.mapM fun c => CommandStep.ask (plannedKey · project c)
    tell (.planned job.name job.stage entry.reason key)

def plan (s : Surroundings) (settings : Settings) (source : Source) (kind : String) :
    CommandStep σ Unit := do
  let (project, p) ← openSource s settings source
  let e := Event.ofKind kind none none
  tell (.header ("Plan for event \x27" ++ e.kind ++ "\x27"))
  let entries ← CommandStep.ask fun _ => needStage (p.plan e)
  entries.forM (tellEntry project)

def unknownJob (p : Pipeline) (name : String) : Notice :=
  .error "Unknown job" ("No job named \x27" ++ name ++ "\x27")
    ["Known jobs: " ++ Text.quotedList (p.jobs.map (·.name))] none

def noCache (name : String) : Notice :=
  .error "No cache" ("Job \x27" ++ name ++ "\x27 does not declare a cache") [] none

def tellKey (project : Location) (c : CacheSpec) : CommandStep σ Unit := do
  match c.resolveKey (← get).world.files project with
  | .ok key => tell (.info key)
  | .error (.error e) => fail (.error "Missing cache input" e.message [] none) missingInputStatus
  | .error (.fault f) => throw (.fault f)

def cacheKey (s : Surroundings) (settings : Settings) (source : Source) (name : String) :
    CommandStep σ Unit := do
  let (project, p) ← openSource s settings source
  match p.job? name with
  | none => fail (unknownJob p name) 1
  | some job =>
    match job.cache with
    | none => fail (noCache name) 1
    | some c => tellKey project c

def Request.execute (s : Surroundings) (settings : Settings) : Request → CommandStep σ Unit
  | .help verb => throw (.help (some verb))
  | .run source flags => CommandLine.run s settings source flags
  | .plan source event => CommandLine.plan s settings source event
  | .cacheKey source job => CommandLine.cacheKey s settings source job

/-- Turns the errors of a kind into an ending. -/
def orEnd {ε : Type} (ending : ε → Ending) (answer : Except ε α) : CommandStep σ α :=
  MonadExcept.ofExcept (answer.mapError ending)

/-- Does what a command line asks for. The settings are read before the arguments of the command. -/
def perform (s : Surroundings) (verb : Verb) (arguments : List String) : CommandStep σ Unit := do
  let settings ← orEnd .settings (Settings.ofEnvironment s.environment)
  let request ← orEnd (.usage verb) (Request.ofArguments verb arguments s.environment)
  request.execute s settings

structure Result (σ : Type) where
  ending : Ending
  printed : Printed
  world : World σ

def execute (s : Surroundings) (arguments : List String) (w : World σ) : Result σ :=
  match Invocation.ofArguments arguments with
  | .error e => ⟨.usage none e, {}, w⟩
  | .ok .help => ⟨.help none, {}, w⟩
  | .ok (.command debug verb rest) =>
    let (answer, session) := (perform s verb rest).run.run { world := w }
    let ending := match answer with
      | .ok () => .exit 0
      | .error ending => ending
    ⟨ending, .ofNotices debug session.notices, session.world⟩

end Conveyor.CommandLine
