import Conveyor.Text.Quoted

/-!
Arguments of a command: options by name, most of them with a value, and operands. An option may be
given more than once, and the last value counts; what follows two dashes is never an option.
-/

namespace Conveyor.CommandLine

open Conveyor.Text

/-- An option: whether it takes a value, and what it is for. -/
structure OptionForm where
  name : String
  takesValue : Bool
  summary : String
  deriving DecidableEq, Repr

inductive UsageError
  | missingCommand
  | unknownCommand (name : String)
  | unknownOption (name : String)
  | missingValue (option : String)
  | needlessValue (option : String)
  | unfitValue (option detail : String)
  | missingOperand (name : String)
  | surplusOperands (operands : List String)
  deriving DecidableEq, Repr

def UsageError.message : UsageError → String
  | .missingCommand => "Missing command."
  | .unknownCommand name => "No such command " ++ quoted name ++ "."
  | .unknownOption name => "No such option: " ++ name
  | .missingValue option => "Option " ++ quoted option ++ " requires an argument."
  | .needlessValue option => "Option " ++ quoted option ++ " does not take a value."
  | .unfitValue option detail => "Invalid value for " ++ quoted option ++ ": " ++ detail
  | .missingOperand name => "Missing argument " ++ quoted name ++ "."
  | .surplusOperands [operand] => "Got unexpected extra argument (" ++ operand ++ ")"
  | .surplusOperands operands =>
    "Got unexpected extra arguments (" ++ " ".intercalate operands ++ ")"

/-- Arguments told apart, each kind in the order in which they were given. -/
structure Arguments where
  options : List (OptionForm × String) := []
  operands : List String := []
  deriving DecidableEq, Repr

namespace Arguments

def withOption (a : Arguments) (form : OptionForm) (value : String) : Arguments :=
  { a with options := (form, value) :: a.options }

def withOperand (a : Arguments) (operand : String) : Arguments :=
  { a with operands := operand :: a.operands }

def value? (a : Arguments) (form : OptionForm) : Option String := a.options.reverse.lookup form

def has (a : Arguments) (form : OptionForm) : Bool := (a.value? form).isSome

def last? (a : Arguments) (forms : List OptionForm) : Option OptionForm :=
  (a.options.reverse.map (·.1)).find? forms.contains

def isOption (argument : String) : Bool := argument.startsWith "-" && argument ≠ "-"

/-- The name of an option, and the value that is given with it after an equality sign. -/
def splitOption (argument : String) : String × Option String :=
  let cs := argument.toList
  let name := cs.takeWhile (· ≠ '=')
  let value := (cs.drop name.length).tail?
  (String.ofList name, value.map String.ofList)

/-- Tells options and operands apart. Unless options may stand between operands, what follows the
first operand belongs to the operands. -/
def read (forms : List OptionForm) (between : Bool) :
    List String → Except UsageError Arguments
  | [] => .ok {}
  | argument :: rest =>
    if argument = "--" then .ok { operands := rest }
    else if isOption argument then
      let (name, given) := splitOption argument
      match forms.find? (·.name == name), given, rest with
      | none, _, _ => .error (.unknownOption name)
      | some form, given, rest =>
        if form.takesValue then
          match given, rest with
          | some value, rest => (read forms between rest).map (·.withOption form value)
          | none, value :: rest => (read forms between rest).map (·.withOption form value)
          | none, [] => .error (.missingValue name)
        else if given.isSome then .error (.needlessValue name)
        else (read forms between rest).map (·.withOption form "")
    else if between then (read forms between rest).map (·.withOperand argument)
    else .ok { operands := argument :: rest }

end Arguments

end Conveyor.CommandLine
