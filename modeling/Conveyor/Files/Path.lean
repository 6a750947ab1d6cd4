/-!
Paths as they are written. Repeated separators and single dots do not count; double dots stay, since
what they mean depends on links.
-/

namespace Conveyor

def splitSlashes : List Char → List (List Char)
  | [] => [[]]
  | c :: rest =>
    match splitSlashes rest with
    | [] => [[c]]
    | part :: parts => if c = '/' then [] :: part :: parts else (c :: part) :: parts

/-- The components of a path text, without empty ones and single dots. -/
def pathParts (s : String) : List String :=
  ((splitSlashes s.toList).map String.ofList).filter fun p => p ≠ "" ∧ p ≠ "."

/-- A path: what it starts from, and its components. The start is empty for a relative path. -/
structure Path where
  root : String
  parts : List String
  deriving DecidableEq, Repr

namespace Path

def ofText (s : String) : Path :=
  let slashes := (s.toList.takeWhile (· = '/')).length
  let root := if slashes = 0 then "" else if slashes = 2 then "//" else "/"
  ⟨root, pathParts s⟩

def isAbsolute (p : Path) : Bool := p.root ≠ ""

def text (p : Path) : String :=
  if p.root = "" ∧ p.parts = [] then "." else p.root ++ "/".intercalate p.parts

/-- The path `q` seen from `p`. -/
def join (p q : Path) : Path := if q.isAbsolute then q else ⟨p.root, p.parts ++ q.parts⟩

def name (p : Path) : String := p.parts.getLastD ""

end Path

/-- A place in the file tree: the components of an absolute path. -/
abbrev Location := List String

namespace Location

def text (l : Location) : String := "/" ++ "/".intercalate l

def parent (l : Location) : Location := l.dropLast

def ofPath (directory : Location) (p : Path) : Location :=
  if p.isAbsolute then p.parts else directory ++ p.parts

/-- The order of places by their components. -/
def isUpTo : Location → Location → Bool
  | [], _ => true
  | _ :: _, [] => false
  | a :: l, b :: m => if a = b then isUpTo l m else decide (a ≤ b)

/-- The components of a place below a directory, where it lies below it. -/
def below? (root l : Location) : Option (List String) :=
  if root.isPrefixOf l then some (l.drop root.length) else none

end Location

/-- The text of a place below a directory; the directory itself is a dot. -/
def relativeText (parts : List String) : String :=
  if parts.isEmpty then "." else "/".intercalate parts

end Conveyor
