import Conveyor.Files.Tree

/-!
Changes of the file tree. Each either changes what it names or leaves the tree as it was and says
why; errors name the path as it was given.
-/

namespace Conveyor

namespace FileTree

def set (t : FileTree) (l : Location) (e : Entry) : FileTree :=
  { t with entries := t.entries.put l e }

def removeTree (t : FileTree) (l : Location) : FileTree :=
  { t with entries := t.entries.filter fun e => !(l.isPrefixOf e.1) }

/-- The answer of an operation on a path, with a refusal as a fault that names the path. -/
def orFault {α : Type} (l : Location) : Except Refusal α → Except Fault α
  | .ok a => .ok a
  | .error r => .error (.file ⟨r, Location.text l⟩)

/-- No path holds the character that ends paths. -/
def checkNul (l : Location) : Except Fault Unit :=
  if l.any fun c => c.toList.contains '\x00' then .error .nulInPath else .ok ()

def makeDirectory (t : FileTree) (l : Location) : Except Refusal FileTree := do
  let place ← t.followParent l
  match t.entryAt? place with
  | some _ => throw .alreadyExists
  | none => return t.set place .directory

/-- Whether a directory that could not be made is there already, which is no failure. -/
def tolerate (t : FileTree) (l : Location) (r : Refusal) : Except Fault Unit :=
  if r = .notFound then .error (.file ⟨r, Location.text l⟩)
  else match t.isDirectory l with
    | .ok true => .ok ()
    | .ok false => .error (.file ⟨r, Location.text l⟩)
    | .error f => .error f

/-- Makes a directory below one that is there, unless it is there itself. -/
def makeLast (t : FileTree) (l : Location) : Except Fault Unit × FileTree :=
  match t.makeDirectory l with
  | .ok t => (.ok (), t)
  | .error r => (t.tolerate l r, t)

/-- Makes a directory and those above it, unless it is there. What was made before a fault stays. -/
def makeDirectories (t : FileTree) (l : Location) : Except Fault Unit × FileTree :=
  match checkNul l, t.makeDirectory l with
  | .error f, _ => (.error f, t)
  | .ok (), .ok t => (.ok (), t)
  | .ok (), .error .notFound =>
    if l = [] then (.error (.file ⟨.notFound, Location.text l⟩), t)
    else match makeDirectories t l.dropLast with
      | (.error f, t) => (.error f, t)
      | (.ok (), t) => t.makeLast l
  | .ok (), .error r => (t.tolerate l r, t)
termination_by l.length
decreasing_by
  cases l with
  | nil => contradiction
  | cons c rest => simp

/-- Writes a file, through links, keeping the time of change of a file that is there. -/
def writeFile (t : FileTree) (l : Location) (c : Content) : Except Refusal FileTree := do
  let place ← t.follow l
  match t.entryAt? place with
  | some .directory => throw .isDirectory
  | some (.file _ m) => return t.set place (.file c m)
  | _ => return t.set place (.file c 0)

def readFile (t : FileTree) (l : Location) : Except Refusal Content := do
  match ← t.stat l with
  | .file c _ => return c
  | _ => throw .isDirectory

def removeFile (t : FileTree) (l : Location) : Except Refusal FileTree := do
  let place ← t.followParent l
  match t.entryAt? place with
  | some .directory => throw .isDirectory
  | some _ => return t.removeTree place
  | none => throw .notFound

def makeLink (t : FileTree) (l : Location) (target : String) : Except Refusal FileTree := do
  if target.isEmpty then throw .notFound
  let place ← t.followParent l
  match t.entryAt? place with
  | some _ => throw .alreadyExists
  | none => return t.set place (.link target)

/-- Puts what stands at one place at another where nothing stands. -/
def copyEntry (t : FileTree) (source l : Location) : Except Refusal FileTree := do
  let place ← t.followParent l
  match t.entryAt? (← t.followParent source), t.entryAt? place with
  | none, _ => throw .notFound
  | some .directory, _ => throw .isDirectory
  | some _, some _ => throw .alreadyExists
  | some e, none => return t.set place e

/-- Gives the file that a path leads to the time of what is extracted. -/
def touch (t : FileTree) (l : Location) : FileTree :=
  match t.follow l with
  | .ok place => match t.entryAt? place with
    | some (.file c _) => t.set place (.file c 0)
    | _ => t
  | .error _ => t

/-- Gives what stands at one place a second name where nothing stands, and then the time of what is
extracted. A file has that time under both names. What is written to it later does not reach its other
name here: each name in a tree has an entry of its own. -/
def addName (t : FileTree) (source l : Location) : Except Refusal FileTree := do
  let place ← t.followParent l
  let known ← t.followParent source
  match t.entryAt? known, t.entryAt? place with
  | none, _ => throw .notFound
  | some .directory, _ => throw .isDirectory
  | some _, some _ => throw .alreadyExists
  | some (.file c _), none => return (t.set known (.file c 0)).set place (.file c 0)
  | some (.link target), none => return (t.set place (.link target)).touch l

end FileTree

end Conveyor
