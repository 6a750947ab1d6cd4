import Conveyor.CommandLine.Arguments
import Conveyor.Console
import Conveyor.Number.Decimal
import Conveyor.Table

/-!
What a command line asks for. Options come before the command as well as after it; the event may also
come from the environment.
-/

namespace Conveyor.CommandLine

open Conveyor.Number Conveyor.Text

inductive Verb
  | run
  | plan
  | cacheKey
  deriving DecidableEq, Repr

namespace Verb

def name : Verb → String
  | .run => "run"
  | .plan => "plan"
  | .cacheKey => "cache-key"

def all : List Verb := [.run, .plan, .cacheKey]

def ofName? (name : String) : Option Verb := all.find? (·.name == name)

def summary : Verb → String
  | .run => "Run the pipeline for one event."
  | .plan => "Show which jobs an event would run, with their cache keys."
  | .cacheKey => "Print the resolved cache key of one job."

def operands : Verb → List String
  | .cacheKey => ["JOB_NAME"]
  | _ => []

end Verb

namespace OptionForm

def file : OptionForm := ⟨"--file", true, "Pipeline definition"⟩

def event : OptionForm := ⟨"--event", true, "Event kind that triggered the pipeline"⟩

def project : OptionForm := ⟨"--project-dir", true, "Project directory"⟩

def ref : OptionForm := ⟨"--ref", true, "Git ref (defaults to the current branch)"⟩

def workers : OptionForm := ⟨"--workers", true, "Parallel jobs per stage"⟩

def cacheDirectory : OptionForm := ⟨"--cache-dir", true, "Cache directory"⟩

def keep : OptionForm := ⟨"--cache-keep", true, "Artifacts kept per cache prefix (0 keeps all)"⟩

def timeout : OptionForm := ⟨"--timeout", true, "Per-command timeout in seconds"⟩

def failFast : OptionForm := ⟨"--fail-fast", false, "Skip later stages after a failure"⟩

def noFailFast : OptionForm := ⟨"--no-fail-fast", false, "Run later stages after a failure"⟩

def debug : OptionForm := ⟨"--debug", false, "Show the output of failed commands"⟩

def help : OptionForm := ⟨"--help", false, "Show this message and exit."⟩

end OptionForm

open OptionForm in
def Verb.forms : Verb → List OptionForm
  | .run => [file, event, project, ref, workers, cacheDirectory, keep, timeout, failFast,
      noFailFast, help]
  | .plan => [file, event, project, help]
  | .cacheKey => [file, project, help]

/-- What comes before the arguments of a command. -/
inductive Invocation
  | help
  | command (debug : Bool) (verb : Verb) (arguments : List String)
  deriving DecidableEq, Repr

namespace Invocation

def forms : List OptionForm := [.debug, .help]

def ofArguments (arguments : List String) : Except UsageError Invocation := do
  let a ← Arguments.read forms false arguments
  if a.has .help then return .help
  match a.operands with
  | [] => throw .missingCommand
  | name :: rest =>
    match Verb.ofName? name with
    | some verb => return .command (a.has .debug) verb rest
    | none => throw (.unknownCommand name)

end Invocation

structure Source where
  file : Option String := none
  project : String := "."
  deriving DecidableEq, Repr

/-- How to run a pipeline, as far as the command line tells. -/
structure RunFlags where
  event : String
  ref : Option String := none
  workers : Option Int := none
  cacheDirectory : Option String := none
  keep : Option Int := none
  timeout : Option Binary64 := none
  failFast : Option Bool := none
  deriving DecidableEq, Repr

inductive Request
  | help (verb : Verb)
  | run (source : Source) (flags : RunFlags)
  | plan (source : Source) (event : String)
  | cacheKey (source : Source) (job : String)
  deriving DecidableEq, Repr

namespace Request

def eventVariable : String := "CI_PIPELINE_SOURCE"

def defaultEvent : String := "push"

/-- A whole number that must not be below another. -/
def readWhole (least : Int) (text : String) : Except String Int :=
  match parseInt quoted text with
  | .ok n =>
    if least ≤ n then .ok n
    else .error (toString n ++ " is not in the range x>=" ++ toString least ++ ".")
  | .error _ => .error (quoted text ++ " is not a valid integer range.")

def readDecimal (text : String) : Except String Binary64 :=
  match parseFloat text with
  | some x => .ok x
  | none => .error (quoted text ++ " is not a valid float.")

def onlyOperand (name : String) : List String → Except UsageError String
  | [] => .error (.missingOperand name)
  | [operand] => .ok operand
  | _ :: surplus => .error (.surplusOperands surplus)

def noOperands (operands : List String) : Except UsageError Unit :=
  if operands.isEmpty then .ok () else .error (.surplusOperands operands)

def sourceOf (a : Arguments) : Source where
  file := given? (a.value? .file)
  project := (a.value? .project).getD "."

/-- The kind of the event: an option, a variable or the default names it. -/
def eventOf (a : Arguments) (environment : Table String String) : String :=
  match a.value? .event with
  | some kind => kind
  | none => (given? (environment.get? eventVariable)).getD defaultEvent

def readGiven {α : Type} (a : Arguments) (form : OptionForm) (read : String → Except String α) :
    Except UsageError (Option α) :=
  (a.value? form).mapM fun text => (read text).mapError (.unfitValue form.name)

def flagsOf (a : Arguments) (event : String) : Except UsageError RunFlags := do
  return {
    event
    ref := given? (a.value? .ref)
    workers := ← readGiven a .workers (readWhole 1)
    cacheDirectory := given? (a.value? .cacheDirectory)
    keep := ← readGiven a .keep (readWhole 0)
    timeout := ← readGiven a .timeout readDecimal
    failFast := (a.last? [.failFast, .noFailFast]).map (· == .failFast) }

def ofArguments (verb : Verb) (arguments : List String) (environment : Table String String) :
    Except UsageError Request := do
  let a ← Arguments.read verb.forms true arguments
  if a.has .help then return .help verb
  match verb with
  | .run =>
    let flags ← flagsOf a (eventOf a environment)
    noOperands a.operands
    return .run (sourceOf a) flags
  | .plan =>
    noOperands a.operands
    return .plan (sourceOf a) (eventOf a environment)
  | .cacheKey => return .cacheKey (sourceOf a) (← onlyOperand "JOB_NAME" a.operands)

end Request

end Conveyor.CommandLine
