import Conveyor.CommandLine.Request

/-!
How the program and its commands are used, as it is told on request and after a mistake.
-/

namespace Conveyor.CommandLine

def programName : String := "conveyor"

def padded (width : Nat) (s : String) : String := s ++ "".pushn ' ' (width - s.length)

def rows (entries : List (String × String)) : List String :=
  let width := entries.foldl (fun w e => max w e.1.length) 0
  entries.map fun (left, right) => "  " ++ padded (width + 2) left ++ right

def usageLine : Option Verb → String
  | none => "Usage: " ++ programName ++ " [OPTIONS] COMMAND [ARGS]..."
  | some verb =>
    "Usage: " ++ " ".intercalate ([programName, verb.name, "[OPTIONS]"] ++ verb.operands)

def optionRow (form : OptionForm) : String × String :=
  (if form.takesValue then form.name ++ " VALUE" else form.name, form.summary)

/-- The lines that tell how a command or the program is used. -/
def helpLines (verb : Option Verb) : List String :=
  let forms := (verb.map (·.forms)).getD Invocation.forms
  let summary := (verb.map (·.summary)).getD "Staged, event-gated, cache-aware pipelines."
  let verbs := if verb.isSome then []
    else "" :: "Commands:" :: rows (Verb.all.map fun v => (v.name, v.summary))
  [usageLine verb, "", "  " ++ summary, "", "Options:"] ++ rows (forms.map optionRow) ++ verbs

def mistakeLines (verb : Option Verb) (e : UsageError) : List String :=
  [usageLine verb, "", "Error: " ++ e.message]

end Conveyor.CommandLine
