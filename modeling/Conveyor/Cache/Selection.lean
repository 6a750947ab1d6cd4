import Conveyor.Files.Resolve

/-!
Which files of a project a cache holds. A path selects the file that it leads to, or every file below
the directory that it leads to; what does not exist or lies outside the project selects nothing. A
selected file is named by its real path from the project on.
-/

namespace Conveyor

/-- A selected file: where it stands and the name that it is kept under. -/
structure Selected where
  place : Location
  name : String
  deriving DecidableEq, Repr

/-- The name of a real place below the project. Backslashes count as separators. -/
def keptName (parts : List String) : String :=
  (relativeText parts).map fun c => if c = '\\' then '/' else c

namespace FileTree

/-- The name that a file of the project is kept under; a link must not lead out of the project. -/
def nameInside (t : FileTree) (project place : Location) : Except Fault String := do
  let real ← t.resolve place
  match Location.below? project real with
  | some parts => return keptName parts
  | none => throw (.outside (Location.text real) (Location.text project))

/-- The places below a directory, or below a link to one, in order of their components. -/
def placesBelow (t : FileTree) (l : Location) : List Location :=
  match t.follow l with
  | .ok directory => (t.below directory).map fun (parts, _) => l ++ parts
  | .error _ => []

/-- Lists the places below a directory, which asks what each of them is. -/
def listBelow (t : FileTree) (l : Location) : Except Fault (List Location) :=
  (t.placesBelow l).mapM fun place => do
    let _ ← t.isDirectory place
    return place

def selectFiles (t : FileTree) (project : Location) : List Location → Except Fault (List Selected)
  | [] => .ok []
  | place :: rest => do
    if ← t.isFile place then
      let name ← t.nameInside project place
      return ⟨place, name⟩ :: (← selectFiles t project rest)
    else selectFiles t project rest

def selectPath (t : FileTree) (project : Location) (path : String) :
    Except Fault (List Selected) := do
  let place ← t.resolve (Location.ofPath project (Path.ofText path))
  if !(← t.hasPath place) then return []
  if (Location.below? project place).isNone then return []
  if ← t.isFile place then return [⟨place, ← t.nameInside project place⟩]
  t.selectFiles project (← t.listBelow place)

def selectPaths (t : FileTree) (project : Location) : List String → Except Fault (List Selected)
  | [] => .ok []
  | path :: rest => do
    return (← t.selectPath project path) ++ (← selectPaths t project rest)

/-- The files of a project that a cache with the given paths holds. -/
def selection (t : FileTree) (project : Location) (paths : List String) :
    Except Fault (List Selected) := do
  t.selectPaths (← t.resolve project) paths

end FileTree

end Conveyor
