import Conveyor.Files.Change

/-!
References of a Git directory: names that lead, through other names, to a commit. A reference has a
file of its own, or a line in the file of packed references.
-/

namespace Conveyor.Git

inductive Target
  | commit (hash : String)
  | reference (name : String)
  deriving DecidableEq, Repr

def hashLength : Nat := 40

def isHashDigit (c : Char) : Bool :=
  c.isDigit || ('a' ≤ c && c ≤ 'f') || ('A' ≤ c && c ≤ 'F')

def isLineBlank (c : Char) : Bool := c = ' ' || c = '\t' || c = '\n' || c = '\r'

/-- The hash at the front of a text, where a blank or the end follows it. -/
def leadingHash? (cs : List Char) : Option String :=
  let digits := cs.take hashLength
  let isEnded := (cs.drop hashLength).head?.all isLineBlank
  if digits.length = hashLength && digits.all isHashDigit && isEnded then
    some (String.ofList (digits.map Char.toLower))
  else none

def trimLineEnd (cs : List Char) : List Char := (cs.reverse.dropWhile isLineBlank).reverse

/-- What the file of a reference says; nothing if it is damaged. -/
def readTarget (text : String) : Option Target :=
  let cs := trimLineEnd text.toList
  if "ref:".toList.isPrefixOf cs then
    some (.reference (String.ofList ((cs.drop 4).dropWhile isLineBlank)))
  else (leadingHash? cs).map .commit

def isForbidden (c : Char) : Bool :=
  c.toNat ≤ 0x20 || c.toNat = 0x7f || "~^:?*[\\".toList.contains c

def isComponent (c : String) : Bool :=
  c ≠ "" && !c.startsWith "." && !c.endsWith ".lock" && !(c.toList.any isForbidden)

/-- A name that a reference may have below the first directory. -/
def isReferenceName (name : String) : Bool :=
  let holds (part : String) : Bool := 1 < (name.splitOn part).length
  (name.splitOn "/").all isComponent && !name.endsWith "." && !holds ".." && !holds "@\x7b"

def text? (t : FileTree) (l : Location) : Option String :=
  match t.readFile l with
  | .ok c => some (Text.decodeLossy c.toBytes)
  | .error _ => none

def packed? (t : FileTree) (directory : Location) (name : String) : Option Target :=
  let lines := ((text? t (directory ++ ["packed-refs"])).getD "").splitOn "\n"
  lines.findSome? fun line =>
    let cs := line.toList
    if String.ofList (cs.drop (hashLength + 1)) = name then (leadingHash? cs).map .commit else none

/-- The reference that a symbolic link stands for. -/
def linked? (t : FileTree) (l : Location) : Option String :=
  match (t.followParent l).toOption.bind t.entryAt? with
  | some (.link target) =>
    if target.startsWith "refs/" && isReferenceName target then some target else none
  | _ => none

/-- What a reference says, if there is one of the name. -/
def target? (t : FileTree) (directory : Location) (name : String) : Option Target :=
  let place := directory ++ pathParts name
  match linked? t place with
  | some target => some (.reference target)
  | none =>
    match text? t place with
    | some text => readTarget text
    | none => packed? t directory name

def referenceLimit : Nat := 5

/-- The last reference that a name leads to, and the commit that it says. -/
def resolve? (t : FileTree) (directory : Location) : Nat → String → Option (String × String)
  | 0, _ => none
  | depth + 1, name =>
    match target? t directory name with
    | some (.commit hash) => some (name, hash)
    | some (.reference next) =>
      if isReferenceName next then resolve? t directory depth next else none
    | none => none

end Conveyor.Git
