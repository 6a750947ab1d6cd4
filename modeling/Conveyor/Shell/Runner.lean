import Conveyor.Job.Command
import Conveyor.Number.Decimal
import Conveyor.Shell.Evaluate
import Conveyor.Text.Newline
import Conveyor.Text.Tail
import Conveyor.Text.Undecodable

/-!
The runner that gives commands to the shell. A command that is not done in time is stopped and
counts as failed.
-/

namespace Conveyor.Shell

open Conveyor.Number

/-- How long a command may take, in seconds. -/
inductive TimeLimit
  | whole (seconds : Int)
  | decimal (seconds : Binary64)
  deriving DecidableEq, Repr

namespace TimeLimit

def text : TimeLimit → String
  | .whole n => toString n
  | .decimal x => x.text

/-- The longest time that can be waited for, in milliseconds. -/
def longestWait : Nat := twoTo 31 - 1

/-- The longest time that clocks can hold, in nanoseconds. -/
def longestTime : Nat := twoTo 63 - 1

/-- A quotient of seconds in nanoseconds, rounded up, where it can be waited for. -/
def ofQuotient (n : Int) (d : Nat) : Except Fault Nat :=
  let milliseconds := (n.toNat * 1000 + d - 1) / d
  if longestTime < milliseconds * 1000000 then
    .error (.foreign "OverflowError" "timestamp too large to convert to C _PyTime_t")
  else if longestWait < milliseconds then .error (.foreign "OverflowError" "timeout is too large")
  else .ok ((n.toNat * 1000000000 + d - 1) / d)

def nanoseconds : TimeLimit → Except Fault Nat
  | .whole n => ofQuotient n 1
  | .decimal .nan => .error (.foreign "ValueError" "cannot convert float NaN to integer")
  | .decimal (.infinite true) => .ok 0
  | .decimal (.infinite false) =>
    .error (.foreign "OverflowError" "cannot convert float infinity to integer")
  | .decimal (.finite n m e) =>
    match (Binary64.finite n m e).ratio? with
    | some (num, den) => ofQuotient num den
    | none => .ok 0

end TimeLimit

/-- How many nested steps a script gets before it counts as endless. -/
def patience : Nat := 100000

def expiredStatus : Int := 124

def startVariables (env : Environment) (directory : Location) : Table String Variable :=
  let named := env.filter fun e => isName e.1.toList
  let given := named.map fun (n, v) => (n, { value := v, exported := true : Variable })
  let standard : Variable := { value := standardPath }
  let place : Variable := { value := Location.text directory, exported := true }
  Table.ofEntries (("PATH", standard) :: given ++ [("PWD", place)])

/-- The path by which a shell knows the directory where it starts: the one that the environment
names, if it leads there. -/
def startDirectory (t : FileTree) (env : Environment) (real : Location) : Location :=
  match env.get? "PWD" with
  | some path =>
    let place := pathParts path
    if path.startsWith "/" && (t.resolve place).toOption = some real then place else real
  | none => real

def startMachine (t : FileTree) (env : Environment) (real : Location) (limit : Option Nat) :
    Machine :=
  let directory := startDirectory t env real
  { files := t, directory, bindings := startVariables env directory, limit }

/-- A shell was stopped before its end, or something that it left behind was. -/
def isExpired (stop : Except Stop Unit) (m : Machine) : Bool :=
  match stop with
  | .error .expired => true
  | _ => m.limit.any fun limit => limit ≤ max m.now m.backgroundEnd

/-- How a shell ends: its status, or the signal that ended it as a number below zero. -/
def endStatus (stop : Except Stop Unit) (m : Machine) : Int :=
  match stop with
  | .error (.killed signal) => -signal
  | stop => Flow.statusAfter stop m

def runCommand (t : FileTree) (env : Environment) (directory : Location) (limit : Option Nat)
    (command : String) : Except Stop Unit × Machine :=
  let m := startMachine t env directory limit
  if limit = some 0 then (.error .expired, m)
  else (runScript patience { rest := command.toList }).run.run m

def endedOutput (b : Bytes) : Except Fault String :=
  match Text.decode b with
  | .ok s => .ok (Text.tail Text.tailLimit (Text.unifyNewlines s))
  | .error flaw => .error (.foreign "UnicodeDecodeError" flaw)

def stoppedOutput (b : Bytes) : String := Text.tail Text.tailLimit (Text.decodeLossy b)

def resultOf (command : String) (limit : Option TimeLimit) (stop : Except Stop Unit)
    (m : Machine) : Except Fault CommandResult := do
  if isExpired stop m then
    let errors := stoppedOutput (m.content 2)
    let note := "timed out after " ++ (limit.map (·.text)).getD "None" ++ "s"
    return ⟨command, expiredStatus, stoppedOutput (m.content 1),
      if errors.isEmpty then note else errors⟩
  else
    return ⟨command, endStatus stop m, ← endedOutput (m.content 1), ← endedOutput (m.content 2)⟩

/-- What cannot be given to a command at all. -/
def checkStart (command : String) (env : Environment) : Except Fault Unit :=
  if env.any fun e => e.1.toList.contains '=' then
    .error (.foreign "ValueError" "illegal environment variable name")
  else if (command :: env.flatMap fun e => [e.1, e.2]).any fun s => s.toList.contains '\x00' then
    .error .nulInPath
  else .ok ()

/-- The directory where a command starts, which must be there. -/
def checkDirectory (t : FileTree) (directory : Location) : Except Fault Location :=
  match t.stat directory with
  | .ok .directory => t.resolve directory
  | .ok _ => .error (.file ⟨.notDirectory, Location.text directory⟩)
  | .error r => .error (.file ⟨r, Location.text directory⟩)

def runner {σ : Type} (limit : Option TimeLimit) : Runner σ := fun command env directory => do
  let _ ← MonadExcept.ofExcept (checkStart command env)
  let real ← Action.ask fun t => checkDirectory t directory
  let time ← MonadExcept.ofExcept (limit.mapM (·.nanoseconds))
  let w ← get
  let (stop, m) := runCommand w.files env real time command
  set { w with files := m.files }
  MonadExcept.ofExcept (resultOf command limit stop m)

end Conveyor.Shell
