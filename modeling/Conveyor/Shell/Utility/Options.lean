import Conveyor.Shell.Machine

/-!
What the utilities share: options, messages, and the files that they read.
-/

namespace Conveyor.Shell

/-- The arguments of a utility: options with their values, and operands. -/
structure Options where
  flags : List (Char × String) := []
  operands : List String := []
  deriving DecidableEq, Repr

namespace Options

def has (o : Options) (c : Char) : Bool := o.flags.any (·.1 = c)

def value? (o : Options) (c : Char) : Option String :=
  (o.flags.reverse.find? (·.1 = c)).map (·.2)

/-- Reads a cluster of options; `next` is the argument after it. The answer says whether that
argument was used. -/
def readCluster (plain valued : List Char) (next : Option String) :
    List Char → Except String (List (Char × String) × Bool)
  | [] => .ok ([], false)
  | c :: rest =>
    if valued.contains c then
      if !rest.isEmpty then .ok ([(c, String.ofList rest)], false)
      else match next with
        | some v => .ok ([(c, v)], true)
        | none => .error ("option requires an argument -- '" ++ c.toString ++ "'")
    else if plain.contains c then
      (readCluster plain valued next rest).map fun (fs, used) => ((c, "") :: fs, used)
    else .error ("invalid option -- '" ++ c.toString ++ "'")

/-- Reads arguments. Options may stand anywhere before a double hyphen. -/
def read (plain valued : List Char) : List String → Except String Options
  | [] => .ok {}
  | a :: rest =>
    if a = "--" then .ok ⟨[], rest⟩
    else if a.startsWith "--" then .error ("unrecognized option '" ++ a ++ "'")
    else if a.startsWith "-" && a ≠ "-" then do
      let (fs, used) ← readCluster plain valued rest.head? (a.toList.drop 1)
      match used, rest with
      | true, _ :: rest =>
        let o ← read plain valued rest
        return { o with flags := fs ++ o.flags }
      | _, rest =>
        let o ← read plain valued rest
        return { o with flags := fs ++ o.flags }
    else do
      let o ← read plain valued rest
      return { o with operands := a :: o.operands }

end Options

/-- A command of its own: its work for some arguments, and its exit status. -/
abbrev Utility := List String → Flow Int

namespace Utility

def fail (name text : String) (status : Int) : Flow Int := do
  Flow.complain (name ++ ": " ++ text)
  return status

def misuse (name text : String) (status : Int) : Flow Int := do
  Flow.complain (name ++ ": " ++ text)
  Flow.complain ("Try '" ++ name ++ " --help' for more information.")
  return status

def withOptions (name : String) (plain valued : String) (status : Int)
    (work : Options → Flow Int) : Utility := fun args =>
  match Options.read plain.toList valued.toList args with
  | .ok o => work o
  | .error text => misuse name text status

/-- The work of a utility on each operand; it succeeds if all of it does. -/
def forEach (operands : List String) (work : String → Flow Bool) : Flow Int := do
  let answers ← operands.mapM work
  return if answers.all id then 0 else 1

def refuse (name text : String) (r : Refusal) : Flow Bool := do
  Flow.complain (name ++ ": " ++ text ++ ": " ++ r.text)
  return false

/-- The bytes of a file, or of the input for a hyphen. Zeros without end have no such bytes. -/
def contentOf (path : String) : Flow (Except Refusal Bytes) := do
  if path = "-" then return .ok (← Flow.readAll 0)
  if path = "/dev/null" || path = "/dev/zero" then return .ok []
  match (← get).stat path with
  | .ok (.file c _) => return .ok c.toBytes
  | .ok _ => return .error .isDirectory
  | .error r => return .error r

/-- The contents of operands that can be read, the input if there are none, and whether all could
be read. -/
def contents (name : String) (operands : List String) (text : String → String) :
    Flow (List (String × Bytes) × Bool) := do
  let operands := if operands.isEmpty then ["-"] else operands
  let found ← operands.mapM fun path => do
    match ← contentOf path with
    | .ok b => return some (path, b)
    | .error r =>
      let _ ← refuse name (text path) r
      return none
  return (found.reduceOption, found.all Option.isSome)

/-- Lines of bytes, each with its line feed. -/
def linesOf : Bytes → List Bytes
  | [] => []
  | b :: rest =>
    match b == 0x0a, linesOf rest with
    | true, ls => [b] :: ls
    | false, [] => [[b]]
    | false, l :: ls => (b :: l) :: ls

end Utility

end Conveyor.Shell
