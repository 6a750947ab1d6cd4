import Conveyor.Files.Content
import Conveyor.Files.Fault
import Conveyor.Files.Path
import Conveyor.Table

/-!
The file tree: directories, files and symbolic links by place. Looking a path up follows links as
the system does, and gives up after forty of them.
-/

namespace Conveyor

/-- What stands at a place. A file has a time of last change. -/
inductive Entry
  | directory
  | file (content : Content) (modified : Int)
  | link (target : String)

/-- The tree below the root, and the time that the next stamped file gets. -/
structure FileTree where
  entries : Table Location Entry := []
  clock : Int := 0

namespace FileTree

/-- What stands at a place, without following links. The root is a directory. -/
def entryAt? (t : FileTree) (l : Location) : Option Entry :=
  if l = [] then some .directory else t.entries.get? l

def isDirectoryAt (t : FileTree) (l : Location) : Bool :=
  match t.entryAt? l with
  | some .directory => true
  | _ => false

/-- How many links a path may lead through. -/
def linkLimit : Nat := 40

/-- The longest name, in bytes. Whole paths have a limit as well, 4095 bytes; paths are taken to stay
below it. -/
def nameLimit : Nat := 255

/-- Where a link that stands in a directory leads from. -/
def linkStart (directory : Location) (target : String) : Location :=
  if target.startsWith "/" then [] else directory

/-- Follows components from a directory to the place that they name, which need not be taken. The
last component is followed only where `last` says so. -/
def locate (t : FileTree) (last : Bool) : Nat → Location → List String → Except Refusal Location
  | _, place, [] => .ok place
  | links, place, c :: rest =>
    if !t.isDirectoryAt place then .error .notDirectory
    else if c = "" ∨ c = "." then locate t last links place rest
    else if c = ".." then locate t last links place.parent rest
    else if nameLimit < c.utf8ByteSize then .error .nameTooLong
    else
      let here := place ++ [c]
      match t.entryAt? here with
      | none => if rest.isEmpty then .ok here else .error .notFound
      | some (.link target) =>
        if rest.isEmpty && !last then .ok here
        else match links with
          | 0 => .error .linkLoop
          | links + 1 => locate t last links (linkStart place target) (pathParts target ++ rest)
      | some _ => locate t last links here rest
termination_by links _ parts => (links, parts.length)

/-- The place that a path names, through links. -/
def follow (t : FileTree) (l : Location) : Except Refusal Location := t.locate true linkLimit [] l

/-- The place that a path names, where a link at the end stands for itself. -/
def followParent (t : FileTree) (l : Location) : Except Refusal Location :=
  t.locate false linkLimit [] l

def stat (t : FileTree) (l : Location) : Except Refusal Entry := do
  match t.entryAt? (← t.follow l) with
  | some e => return e
  | none => throw .notFound

/-- Whether a question about a path has an answer: that a path leads nowhere is an answer, that its
names are too long is not. -/
def ask (t : FileTree) (l : Location) (p : Entry → Bool) : Except Fault Bool :=
  if l.any fun c => c.toList.contains '\x00' then .ok false
  else match t.stat l with
    | .ok e => .ok (p e)
    | .error .nameTooLong => .error (.file ⟨.nameTooLong, Location.text l⟩)
    | .error _ => .ok false

def isFile (t : FileTree) (l : Location) : Except Fault Bool :=
  t.ask l fun | .file .. => true | _ => false

def isDirectory (t : FileTree) (l : Location) : Except Fault Bool :=
  t.ask l fun | .directory => true | _ => false

def hasPath (t : FileTree) (l : Location) : Except Fault Bool := t.ask l fun _ => true

/-- Everything below a directory, as its components from there. Links are not followed. -/
def below (t : FileTree) (l : Location) : List (List String × Entry) :=
  (t.entries.filterMap fun (place, e) =>
    match Location.below? l place with
    | some [] | none => none
    | some parts => some (parts, e)).mergeSort fun a b => Location.isUpTo a.1 b.1

def names (t : FileTree) (l : Location) : List String :=
  (t.below l).filterMap fun | ([n], _) => some n | _ => none

end FileTree

end Conveyor
