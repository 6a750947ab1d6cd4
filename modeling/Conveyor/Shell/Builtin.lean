import Conveyor.Files.Resolve
import Conveyor.Shell.Condition
import Conveyor.Shell.Format
import Conveyor.Shell.Scanner

/-!
Commands that are part of the shell and need no other command: they work on its variables, its
directory and its options, or print.
-/

namespace Conveyor.Shell

/-- A command of the shell itself. -/
abbrev Builtin := List String → Flow Int

namespace Builtin

def fail (name text : String) (status : Int) : Flow Int := do
  Flow.speakingAs none (Flow.warn (name ++ ": " ++ text))
  return status

def echo : Builtin := fun args => do
  Flow.print (echoed args)
  return 0

def printf : Builtin := fun args => do
  match args with
  | [] | ["--"] => fail "printf" "usage: printf format [arg ...]" 2
  | "--" :: format :: args | format :: args =>
    match formatted? format args with
    | none => fail "printf" (format ++ ": invalid directive") 2
    | some f =>
      Flow.print f.bytes
      for text in f.complaints do Flow.warn ("printf: " ++ text)
      return if f.complaints.isEmpty then 0 else 1

def condition (name : String) (args : List String) : Flow Int := do
  match Condition.evaluate (← get) args with
  | .ok b => return if b then 0 else 1
  | .error e => fail name e.text 2

def bracket : Builtin := fun args =>
  match args.getLast? with
  | some "]" => condition "[" args.dropLast
  | _ => fail "[" "missing ]" 2

/-- The place of a path whose double dots take away the component before them. -/
def logicalPlace (directory : Location) (path : String) : Location :=
  let p := Path.ofText path
  let start := if p.isAbsolute then [] else directory
  p.parts.foldl (fun l c => if c = ".." then l.dropLast else l ++ [c]) start

def enter (path : String) (tells : Bool) : Flow Int := do
  let m ← get
  let place := logicalPlace m.directory path
  match m.files.stat place with
  | .ok .directory =>
    set { m with directory := place }
    Flow.setVariable "OLDPWD" (Location.text m.directory)
    Flow.exportVariable "OLDPWD"
    Flow.setVariable "PWD" (Location.text place)
    Flow.exportVariable "PWD"
    if tells then Flow.printLine (Location.text place)
    return 0
  | _ => fail "cd" ("can't cd to " ++ path) 2

def cd : Builtin := fun args => do
  let m ← get
  match args.filter fun a => !(["-L", "-P", "--"].contains a) with
  | [] => match m.value? "HOME" with
    | some home => if home.isEmpty then return 0 else enter home false
    | none => return 0
  | "-" :: _ => match m.value? "OLDPWD" with
    | some old => enter old true
    | none => enter (Location.text m.directory) true
  | path :: _ => if path.isEmpty then return 0 else enter path false

def pwd : Builtin := fun args => do
  let m ← get
  let place := if args.head? = some "-P" then (m.files.resolveFrom [] [] m.directory).1
    else m.directory
  Flow.printLine (Location.text place)
  return 0

def statusNumber (s : String) : Option Int :=
  if !s.isEmpty && s.toList.all Char.isDigit then s.toInt? else none

/-- The status of an argument, or the last one. -/
def statusOf (name : String) (args : List String) : Flow Int := do
  match args with
  | [] => return (← get).status
  | a :: _ => match statusNumber a with
    | some n => return n % 256
    | none => Flow.abort (name ++ ": Illegal number: " ++ a)

def exit : Builtin := fun args => do Flow.exit (← statusOf "exit" args)

def leaveFunction : Builtin := fun args => do
  let status ← statusOf "return" args
  Flow.setStatus status
  throw .leaveFunction

def loopCount (name : String) (args : List String) : Flow Nat := do
  match args with
  | [] => return 1
  | a :: _ => match statusNumber a with
    | some n => return max n.toNat 1
    | none => Flow.abort (name ++ ": Illegal number: " ++ a)

def leaveLoop : Builtin := fun args => do
  let n := min (← loopCount "break" args) (← get).loops
  if n = 0 then return 0 else throw (.leaveLoop n)

def nextRound : Builtin := fun args => do
  let n := min (← loopCount "continue" args) (← get).loops
  if n = 0 then return 0 else throw (.nextRound n)

/-- Sets a variable from `name=value`, or only names it. -/
def assign (builtin word : String) (named : String → Flow Unit) : Flow Unit := do
  let name := word.toList.takeWhile (· ≠ '=')
  if !isName name then Flow.abort (builtin ++ ": " ++ String.ofList name ++ ": bad variable name")
  if name.length < word.length then
    Flow.setVariable (String.ofList name) (String.ofList (word.toList.drop (name.length + 1)))
  named (String.ofList name)

def exportNames : Builtin := fun args => do
  for a in args do
    if a ≠ "-p" then assign "export" a Flow.exportVariable
  return 0

def declare : Builtin := fun args => do
  for a in args do
    if a ≠ "-p" then assign "readonly" a fun name =>
      Flow.markVariable name fun v => { v with constant := true }
  return 0

def unset : Builtin := fun args => do
  let functions := args.head? = some "-f"
  for a in args.filter fun a => a ≠ "-f" && a ≠ "-v" do
    if !isName a.toList then Flow.abort ("unset: " ++ a ++ ": bad variable name")
    if !functions && ((← get).bindings.get? a).any (·.constant) then
      Flow.abort ("unset: " ++ a ++ ": is read only")
    modify fun m =>
      if functions then { m with functions := m.functions.erase a }
      else { m with bindings := m.bindings.erase a }
  return 0

def optionNames : List (String × Char) := [
  ("errexit", 'e'), ("nounset", 'u'), ("xtrace", 'x'), ("noglob", 'f'), ("allexport", 'a'),
  ("noclobber", 'C'), ("noexec", 'n'), ("verbose", 'v')]

def setOption (on : Bool) (c : Char) : Flow Unit :=
  modify fun m =>
    let others := m.options.filter (· ≠ c)
    { m with options := if on then others ++ [c] else others }

/-- Sets options, and parameters from what follows them. -/
def setAll : List String → Flow Int
  | [] => return 0
  | "--" :: rest => do
    modify fun m => { m with parameters := rest }
    return 0
  | "-o" :: name :: rest => do
    match optionNames.lookup name with
    | some c => setOption true c
    | none => Flow.abort ("set: Illegal option -o " ++ name)
    setAll rest
  | "+o" :: name :: rest => do
    match optionNames.lookup name with
    | some c => setOption false c
    | none => Flow.abort ("set: Illegal option +o " ++ name)
    setAll rest
  | a :: rest => do
    match a.toList with
    | '-' :: c :: cs =>
      for c in c :: cs do
        if !"aefuxCnvhbm".toList.contains c then
          Flow.abort ("set: Illegal option -" ++ c.toString)
        setOption true c
      setAll rest
    | '+' :: c :: cs =>
      for c in c :: cs do setOption false c
      setAll rest
    | _ =>
      modify fun m => { m with parameters := a :: rest }
      return 0

def shift : Builtin := fun args => do
  let m ← get
  let n := match args with
    | a :: _ => a.toNat?.getD 1
    | [] => 1
  if m.parameters.length < n then Flow.abort "shift: can't shift that many"
  set { m with parameters := m.parameters.drop n }
  return 0

/-- Splits a line into as many texts as there are names; the last name gets the rest. -/
def splitLine (separators : List Char) : Nat → List Char → List (List Char)
  | 0, _ => []
  | 1, cs =>
    let cs := cs.dropWhile separators.contains
    [(cs.reverse.dropWhile separators.contains).reverse]
  | n + 1, cs =>
    let cs := cs.dropWhile separators.contains
    let word := cs.takeWhile fun c => !separators.contains c
    word :: splitLine separators n (cs.drop word.length)

def withoutBackslashes : List Char → List Char
  | '\\' :: c :: rest => c :: withoutBackslashes rest
  | c :: rest => c :: withoutBackslashes rest
  | [] => []

def read : Builtin := fun args => do
  let raw := args.contains "-r"
  let names := args.filter fun a => !a.startsWith "-"
  if names.isEmpty then fail "read" "arg count" 2
  else
    let input ← Flow.readAll 0
    let line := input.takeWhile (· != 0x0a)
    Flow.unread 0 (input.drop (line.length + 1))
    let cs := (Text.decodeLossy line).toList
    let cs := if raw then cs else withoutBackslashes cs
    let separators := ((← get).value? "IFS").getD " \t\n"
    for (name, cs) in names.zip (splitLine separators.toList names.length cs) do
      Flow.setVariable name (String.ofList cs)
    return if line.length < input.length then 0 else 1

def wait : Builtin := fun args => do
  let m ← get
  Flow.pass (m.backgroundEnd - m.now)
  return match args with
    | [] => 0
    | a :: _ => (a.toNat?.bind fun n => m.jobs.lookup n).getD 127

def umask : Builtin := fun args => do
  if args.isEmpty then Flow.printLine "0022"
  return 0

/-- Commands whose mistakes end the shell. -/
def special : List (String × Builtin) := [
  (":", fun _ => return 0), ("break", leaveLoop), ("continue", nextRound), ("exit", exit),
  ("export", exportNames), ("readonly", declare), ("return", leaveFunction), ("set", setAll),
  ("shift", shift), ("unset", unset), ("times", fun _ => return 0)]

/-- The other commands of the shell. -/
def regular : List (String × Builtin) := [
  ("true", fun _ => return 0), ("false", fun _ => return 1), ("echo", echo), ("printf", printf),
  ("test", condition "test"), ("[", bracket), ("cd", cd), ("pwd", pwd), ("read", read),
  ("wait", wait), ("umask", umask), ("hash", fun _ => return 0), ("ulimit", fun _ => return 0),
  ("alias", fun _ => return 0)]

end Builtin

end Conveyor.Shell
