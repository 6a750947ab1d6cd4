import Conveyor.Outcome
import Conveyor.Text.Blank
import Conveyor.Text.Lines
import Conveyor.Text.Uppercase

/-!
What is told while pipelines are planned and run. A notice is a fact; its lines are how the fact is
told, on one of two streams.
-/

namespace Conveyor

open Conveyor.Text

inductive Notice
  | header (title : String)
  | runStarted (definition event : String) (jobCount : Int)
  | stage (name : String) (jobs : List String)
  | jobStarted (job : String)
  | command (job command : String)
  | jobSucceeded (job : String)
  | jobFailed (job reason : String) (exitCode : Option Int) (output : Option String)
  | cacheHit (job key : String)
  | cacheMiss (job key reason : String)
  | cacheSaved (job key : String)
  | cacheSaveFailed (job key fault : String)
  | jobSkipped (job reason : String)
  | planned (job stage reason : String) (key : Option String)
  | plannedSkip (job stage reason : String)
  | results (report : RunReport)
  | error (title message : String) (details : List String) (suggestion : Option String)
  | exception (text : String)
  | info (text : String)
  | debug (text : String)
  deriving DecidableEq, Repr

def given? (s : Option String) : Option String := s.filter fun t => !t.isEmpty

namespace Notice

private def about (job text : String) : String := "[" ++ job ++ "] " ++ text

def resultLine (r : JobResult) : String :=
  let allowed := if r.status = .failed ∧ r.allowFailure then " (allowed)" else ""
  let reason :=
    if (r.status = .failed ∨ r.status = .skipped) ∧ !r.reason.isEmpty then ": " ++ r.reason else ""
  "  " ++ r.stage ++ "/" ++ r.name ++ ": " ++ uppercase r.status.word ++ allowed ++ reason

/-- The lines of a failure; its output is shown only on request. -/
def failureLines (debug : Bool) (job reason : String) (exitCode : Option Int)
    (output : Option String) : List String :=
  let head := if reason.isEmpty then "Unknown error" else firstLine reason
  let code := exitCode.toList.map fun n => about job ("Exit code: " ++ toString n)
  let shown := if debug then (given? output).toList.map fun o => String.ofList (trimEnd o.toList) else []
  about job ("JOB FAILED: " ++ head) :: code ++ shown

def isError : Notice → Bool
  | .error .. | .exception _ | .debug _ => true
  | _ => false

def lines (debug : Bool) : Notice → List String
  | .header title => ["\n" ++ title, String.ofList (List.replicate title.length '-')]
  | .runStarted definition event jobCount =>
    ["\nPIPELINE STARTED", "Definition: " ++ definition, "Event: " ++ event,
      "Jobs: " ++ toString jobCount, ""]
  | .stage name jobs => ["\n=== Stage " ++ name ++ ": " ++ quotedList jobs ++ " ==="]
  | .jobStarted job => [about job "JOB STARTED"]
  | .command job line => [about job ("$ " ++ line)]
  | .jobSucceeded job => [about job "STATUS: success"]
  | .jobFailed job reason exitCode output => failureLines debug job reason exitCode output
  | .cacheHit job key => [about job ("CACHE: hit (" ++ key ++ ")")]
  | .cacheMiss job key reason => [about job ("CACHE: miss (" ++ key ++ ": " ++ reason ++ ")")]
  | .cacheSaved job key => [about job ("CACHE: saved (" ++ key ++ ")")]
  | .cacheSaveFailed job key fault =>
    [about job ("CACHE: save failed (" ++ key ++ ": " ++ fault ++ ")")]
  | .jobSkipped job reason => [about job ("STATUS: skipped (" ++ reason ++ ")")]
  | .planned job place reason key =>
    let suffix := ((given? key).map fun k => " cache=" ++ k).getD ""
    ["  ✓ " ++ place ++ "/" ++ job ++ " (" ++ reason ++ ")" ++ suffix]
  | .plannedSkip job place reason =>
    ["  ⏭ " ++ place ++ "/" ++ job ++ " (skipped: " ++ reason ++ ")"]
  | .results report =>
    let rule := String.ofList (List.replicate 40 '=')
    ["", rule, "RESULTS", rule] ++ report.jobs.map resultLine
  | .error title message details suggestion =>
    ["\nERROR: " ++ title, message] ++ details.map ("  " ++ ·) ++
      (given? suggestion).toList.map ("\n" ++ ·)
  | .exception text => ["Error: " ++ text]
  | .info text => [text]
  | .debug text => if debug then ["[DEBUG] " ++ text] else []

def text (debug : Bool) (n : Notice) : String := String.join ((n.lines debug).map (· ++ "\n"))

end Notice

structure Printed where
  out : String := ""
  err : String := ""
  deriving DecidableEq, Repr

def Printed.joined (lines : List String) : String := String.join (lines.map (· ++ "\n"))

def Printed.ofNotices (debug : Bool) (ns : List Notice) : Printed where
  out := String.join ((ns.filter (!·.isError)).map (·.text debug))
  err := String.join ((ns.filter (·.isError)).map (·.text debug))

end Conveyor
