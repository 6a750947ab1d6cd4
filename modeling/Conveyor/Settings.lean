import Conveyor.Environment
import Conveyor.Number.Decimal
import Conveyor.Text.Lowercase
import Conveyor.Text.Quoted

/-!
Settings of a run, as the environment gives them.
-/

namespace Conveyor

open Conveyor.Number Conveyor.Text

inductive SettingsError
  | whole (e : IntegerError)
  | decimal (text : String)
  deriving DecidableEq, Repr

def SettingsError.message : SettingsError → String
  | .whole e => e.message
  | .decimal text => "could not convert string to float: " ++ quoted text

structure Settings where
  definitionFile : String := ".gitlab-ci.yml"
  cacheDirectory : String := ".stageci/cache"
  cacheVariable : String := "CI_CACHE_DIR"
  keep : Int := 3
  workers : Option Int := none
  timeout : Option Binary64 := none
  failFast : Bool := true
  deriving DecidableEq, Repr

namespace Settings

def offWords : List String := ["0", "false", "no"]

def readWhole (text : String) : Except SettingsError Int :=
  match parseInt quoted text with
  | .ok i => .ok i
  | .error e => .error (.whole e)

def readDecimal (text : String) : Except SettingsError Binary64 :=
  match parseFloat text with
  | some x => .ok x
  | none => .error (.decimal text)

/-- The variable's text unless it is missing or empty. -/
def present? (env : Environment) (name : String) : Option String :=
  (env.get? name).filter fun v => !v.isEmpty

def ofEnvironment (env : Environment) : Except SettingsError Settings := do
  let standard : Settings := {}
  let text (name fallback : String) : String := (env.get? name).getD fallback
  let keep ← readWhole (text "STAGECI_CACHE_KEEP" "3")
  let workers ← (present? env "STAGECI_WORKERS").mapM readWhole
  let timeout ← (present? env "STAGECI_COMMAND_TIMEOUT").mapM readDecimal
  return {
    definitionFile := text "STAGECI_FILE" standard.definitionFile
    cacheDirectory := text "STAGECI_CACHE_DIR" standard.cacheDirectory
    cacheVariable := text "STAGECI_CACHE_ROOT_VAR" standard.cacheVariable
    keep, workers, timeout
    failFast := !offWords.contains (lowercase (text "STAGECI_FAIL_FAST" "1")) }

end Settings

end Conveyor
