import Conveyor.Files.Resolve
import Conveyor.Shell.Utility.Options

/-!
Utilities that list, make and remove files and directories.
-/

namespace Conveyor.Shell.Utility

def inQuotes (s : String) : String := "'" ++ s ++ "'"

def listedNames (m : Machine) (o : Options) (path : String) : List String :=
  match (m.place? path).bind m.files.follow with
  | .error _ => []
  | .ok place =>
    let names := m.files.names place
    let names := if o.has 'a' || o.has 'A' then names else names.filter fun n => !n.startsWith "."
    if o.has 'a' then "." :: ".." :: names else names

/-- A directory, and those below it where all of them are to be listed. -/
def directoriesBelow (m : Machine) (o : Options) (path : String) : List String :=
  match o.has 'R', (m.place? path).bind m.files.follow with
  | true, .ok place =>
    let visible (parts : List String) : Bool :=
      o.has 'a' || o.has 'A' || parts.all fun n => !n.startsWith "."
    path :: (m.files.below place).filterMap fun
      | (parts, .directory) => if visible parts then some (path ++ "/" ++ "/".intercalate parts)
        else none
      | _ => none
  | _, _ => [path]

def ls : Utility := withOptions "ls" "1aArRdpQ" "" 2 fun o => do
  let m ← get
  let paths := (if o.operands.isEmpty then ["."] else o.operands).mergeSort
    fun a b => decide (a ≤ b)
  let missing := paths.filter fun p => !(m.standing p).isOk
  for p in missing do
    match m.standing p with
    | .error r => Flow.complain ("ls: cannot access " ++ inQuotes p ++ ": " ++ r.text)
    | .ok _ => pure ()
  let there := paths.filter fun p => (m.standing p).isOk
  let isPlain (p : String) : Bool := o.has 'd' || !m.isDirectory p
  let order (ns : List String) : List String := if o.has 'r' then ns.reverse else ns
  let plain := order (there.filter isPlain)
  let directories := order (there.filter fun p => !isPlain p)
  for p in plain do Flow.printLine p
  let many := 1 < paths.length
  let blocks := (directories.flatMap (directoriesBelow m o)).map fun p =>
    (if many || o.has 'R' then [p ++ ":"] else []) ++ order (listedNames m o p)
  for (block, i) in blocks.zipIdx do
    if 0 < i || !plain.isEmpty then Flow.printLine ""
    for line in block do Flow.printLine line
  return if missing.isEmpty then 0 else 2

/-- A path and the paths above it, the shortest first. -/
def pathsUpTo (path : String) : List String :=
  let p := Path.ofText path
  (List.range p.parts.length).map fun n => Path.text ⟨p.root, p.parts.take (n + 1)⟩

def makeDirectory (path : String) : Flow (Except Refusal Unit) :=
  Flow.change fun t => t.makeDirectory (Location.ofPath [] (Path.ofText path))

def absolute (path : String) : Flow String := do
  match (← get).place? path with
  | .ok l => return Location.text l
  | .error _ => return ""

def makeOne (mayStand : Bool) (path : String) : Flow Bool := do
  if path.isEmpty then refuse "mkdir" "cannot create directory ''" .notFound
  else if mayStand && (← get).isDirectory path then return true
  else match ← makeDirectory (← absolute path) with
    | .ok () => return true
    | .error r => refuse "mkdir" ("cannot create directory " ++ inQuotes path) r

/-- Makes the directories of a path up to the first that cannot be made. -/
def makeAll : List String → Flow Bool
  | [] => return true
  | path :: rest => do
    let m ← get
    if !rest.isEmpty && (m.stat path).isOk && !m.isDirectory path then
      refuse "mkdir" ("cannot create directory " ++ inQuotes path) .notDirectory
    else if ← makeOne true path then makeAll rest
    else return false

def mkdir : Utility := withOptions "mkdir" "pv" "m" 1 fun o => do
  if o.operands.isEmpty then misuse "mkdir" "missing operand" 1
  else forEach o.operands fun path =>
    if o.has 'p' then makeAll (pathsUpTo path) else makeOne false path

def rmdir : Utility := withOptions "rmdir" "" "" 1 fun o => do
  if o.operands.isEmpty then misuse "rmdir" "missing operand" 1
  else forEach o.operands fun path => do
    let m ← get
    let answer ← Flow.change fun t => do
      let place ← t.followParent (← m.place? path)
      match t.entryAt? place with
      | some .directory =>
        if (t.below place).isEmpty then return t.removeTree place else throw .directoryNotEmpty
      | some _ => throw .notDirectory
      | none => throw .notFound
    match answer with
    | .ok () => return true
    | .error r => refuse "rmdir" ("failed to remove " ++ inQuotes path) r

def rm : Utility := withOptions "rm" "rRfv" "" 1 fun o => do
  if o.operands.isEmpty && !o.has 'f' then misuse "rm" "missing operand" 1
  else forEach o.operands fun path => do
    let m ← get
    let recursive := o.has 'r' || o.has 'R'
    let answer ← Flow.change fun t => do
      let place ← t.followParent (← m.place? path)
      match t.entryAt? place with
      | some .directory => if recursive then return t.removeTree place else throw .isDirectory
      | some _ => return t.removeTree place
      | none => throw .notFound
    match answer with
    | .ok () => return true
    | .error r =>
      if o.has 'f' && (r = .notFound || r = .notDirectory) then return true
      refuse "rm" ("cannot remove " ++ inQuotes path) r

def touch : Utility := withOptions "touch" "acm" "" 1 fun o => do
  if o.operands.isEmpty then misuse "touch" "missing file operand" 1
  else forEach o.operands fun path => do
    let m ← get
    match m.stat path with
    | .ok _ => return true
    | .error _ =>
      if o.has 'c' then return true
      let answer ← Flow.change fun t => do t.writeFile (← m.place? path) (.bytes [])
      match answer with
      | .ok () => return true
      | .error r => refuse "touch" ("cannot touch " ++ inQuotes path) r

/-- The path at which a copy of something in a target ends up. -/
def targetPath (m : Machine) (source target : String) : String :=
  if m.isDirectory target then
    (if target.endsWith "/" then target else target ++ "/") ++ (Path.ofText source).name
  else target

def copyTree (t : FileTree) (source target : Location) : FileTree :=
  let t' := match t.entryAt? source with
    | some e => t.set target e
    | none => t
  (t.below source).foldl (fun t' (parts, e) => t'.set (target ++ parts) e) t'

/-- Two paths lead to one place. -/
def isSame (m : Machine) (a b : String) : Bool :=
  match (m.place? a).bind m.files.follow, (m.place? b).bind m.files.follow with
  | .ok l, .ok k => l = k && (m.files.entryAt? l).isSome
  | _, _ => false

/-- Copies something to a path, which need not be taken. -/
def copyOne (o : Options) (source target : String) : Flow Bool := do
  let m ← get
  let recursive := o.has 'r' || o.has 'R' || o.has 'a'
  let given := target
  let target := targetPath m source target
  match if recursive then m.standing source else m.stat source with
  | .error r => refuse "cp" ("cannot stat " ++ inQuotes source) r
  | .ok entry =>
    if isSame m source target then
      Flow.complain ("cp: " ++ inQuotes source ++ " and " ++ inQuotes given ++ " are the same file")
      return false
    if target.endsWith "/" && !recursive then
      return ← refuse "cp" ("cannot create regular file " ++ inQuotes target) .notDirectory
    match entry with
    | .directory =>
      if !recursive then
        Flow.complain ("cp: -r not specified; omitting directory " ++ inQuotes source)
        return false
      let answer ← Flow.change fun t => do
        let place ← t.follow (← m.place? target)
        return copyTree t (← t.followParent (← m.place? source)) place
      match answer with
      | .ok () => return true
      | .error r => refuse "cp" ("cannot create directory " ++ inQuotes target) r
    | .file c _ =>
      let answer ← Flow.change fun t => do t.writeFile (← m.place? target) c
      match answer with
      | .ok () => return true
      | .error r => refuse "cp" ("cannot create regular file " ++ inQuotes target) r
    | .link path =>
      let answer ← Flow.change fun t => do t.makeLink (← m.place? target) path
      match answer with
      | .ok () => return true
      | .error r => refuse "cp" ("cannot create symbolic link " ++ inQuotes target) r

def moveOne (source target : String) : Flow Bool := do
  let m ← get
  match m.standing source with
  | .error r => refuse "mv" ("cannot stat " ++ inQuotes source) r
  | .ok _ =>
    let given := target
    let target := targetPath m source target
    if isSame m source target then
      Flow.complain ("mv: " ++ inQuotes source ++ " and " ++ inQuotes given ++ " are the same file")
      return false
    let answer ← Flow.change fun t => do
      if target.endsWith "/" && !m.isDirectory source then throw .notDirectory
      let place ← t.followParent (← m.place? target)
      let here ← t.followParent (← m.place? source)
      return copyTree (t.removeTree place) here place |>.removeTree here
    match answer with
    | .ok () => return true
    | .error r =>
      refuse "mv" ("cannot move " ++ inQuotes source ++ " to " ++ inQuotes target) r

/-- A utility that takes sources and a target. -/
def transfer (name : String) (o : Options) (one : String → String → Flow Bool) : Flow Int := do
  match o.operands.reverse with
  | [] => misuse name "missing file operand" 1
  | [only] => misuse name ("missing destination file operand after " ++ inQuotes only) 1
  | target :: sources =>
    if 1 < sources.length && !(← get).isDirectory target then
      match (← get).stat target with
      | .ok _ => fail name ("target " ++ inQuotes target ++ ": " ++ Refusal.text .notDirectory) 1
      | .error r => fail name ("target " ++ inQuotes target ++ ": " ++ r.text) 1
    else forEach sources.reverse fun s => one s target

def cp : Utility := withOptions "cp" "rRapfv" "" 1 fun o => transfer "cp" o (copyOne o)

def mv : Utility := withOptions "mv" "fnv" "" 1 fun o => transfer "mv" o moveOne

def linkOne (o : Options) (source target : String) : Flow Bool := do
  let m ← get
  let target := targetPath m source target
  if o.has 'f' then
    let _ ← Flow.change fun t => do t.removeFile (← m.place? target)
  let answer ← Flow.change fun t => do
    if o.has 's' then t.makeLink (← m.place? target) source
    else t.copyEntry (← m.place? source) (← m.place? target)
  let kind := if o.has 's' then "symbolic link " else "hard link "
  match answer with
  | .ok () => return true
  | .error r => refuse "ln" ("failed to create " ++ kind ++ inQuotes target) r

def ln : Utility := withOptions "ln" "sfnv" "" 1 fun o =>
  match o.operands with
  | [only] => transfer "ln" { o with operands := [only, "."] } (linkOne o)
  | _ => transfer "ln" o (linkOne o)

def readlink : Utility := withOptions "readlink" "fn" "" 1 fun o =>
  forEach o.operands fun path => do
    let m ← get
    if o.has 'f' then
      match m.place? path with
      | .ok l =>
        Flow.printLine (Location.text (m.files.resolveFrom [] [] l).1)
        return true
      | .error _ => return false
    else match m.standing path with
      | .ok (.link target) =>
        Flow.printLine target
        return true
      | _ => return false

def realpath : Utility := withOptions "realpath" "ms" "" 1 fun o => do
  if o.operands.isEmpty then misuse "realpath" "missing operand" 1
  else forEach o.operands fun path => do
    let m ← get
    match (m.place? path).bind fun l => m.files.follow l with
    | .ok l =>
      Flow.printLine (Location.text l)
      return true
    | .error r => refuse "realpath" path r

def ofFiles : List (String × Utility) := [
  ("ls", ls), ("mkdir", mkdir), ("rmdir", rmdir), ("rm", rm), ("touch", touch), ("cp", cp),
  ("mv", mv), ("ln", ln), ("readlink", readlink),
  ("realpath", realpath), ("chmod", fun _ => return 0)]

end Conveyor.Shell.Utility
