import Conveyor.Files.Resolve
import Conveyor.Git.Reference

/-!
The repository around a directory, its current commit and its current branch. Every fact is optional:
there is none outside of repositories, or in one that is not in order.
-/

namespace Conveyor.Git

/-- The head of a Git directory is a commit, or a reference below `refs`. -/
def hasValidHead (t : FileTree) (directory : Location) : Bool :=
  let place := directory ++ ["HEAD"]
  match (t.followParent place).toOption.bind t.entryAt? with
  | some (.link target) => target.startsWith "refs/"
  | _ => match (text? t place).bind readTarget with
    | some (.reference name) => name.startsWith "refs/"
    | some (.commit _) => true
    | none => false

def hasDirectory (t : FileTree) (l : Location) : Bool :=
  match t.stat l with
  | .ok .directory => true
  | _ => false

def isGitDirectory (t : FileTree) (directory : Location) : Bool :=
  hasValidHead t directory && hasDirectory t (directory ++ ["objects"]) &&
    hasDirectory t (directory ++ ["refs"])

/-- What stands in a directory as its link to a repository. -/
inductive Found
  | repository (directory : Location)
  | nothing
  | damaged

def readGitFile (t : FileTree) (place : Location) (text : String) : Found :=
  if "gitdir: ".toList.isPrefixOf text.toList then
    let path := String.ofList (trimLineEnd (text.toList.drop 8))
    let directory := Location.ofPath place (Path.ofText path)
    if isGitDirectory t directory then .repository directory else .damaged
  else .damaged

def findIn (t : FileTree) (place : Location) : Found :=
  let inner := place ++ [".git"]
  let bare : Found := if isGitDirectory t place then .repository place else .nothing
  match t.stat inner with
  | .ok (.file c _) => readGitFile t place (Text.decodeLossy c.toBytes)
  | .ok .directory => if isGitDirectory t inner then .repository inner else bare
  | _ => bare

/-- Looks for a repository in the `n` nearest directories, from a directory upward. -/
def findUpward (t : FileTree) (place : Location) : Nat → Option Location
  | 0 => none
  | n + 1 =>
    match findIn t place with
    | .repository directory => some directory
    | .damaged => none
    | .nothing => findUpward t place.dropLast n

inductive Line
  | empty
  | heading (name : String)
  | setting (name value : String)
  | malformed
  deriving DecidableEq, Repr

def readLine (line : String) : Line :=
  match trimLineEnd (line.toList.dropWhile isLineBlank) with
  | [] | '#' :: _ | ';' :: _ => .empty
  | '[' :: rest =>
    if rest.contains ']' then
      .heading (String.ofList ((rest.takeWhile (· ≠ ']')).map Char.toLower))
    else .malformed
  | cs =>
    let name := cs.takeWhile fun c => c.isAlphanum || c = '-'
    let label := String.ofList (name.map Char.toLower)
    match (cs.drop name.length).dropWhile isLineBlank with
    | [] => if name.isEmpty then .malformed else .setting label "true"
    | '=' :: value =>
      if name.isEmpty then .malformed
      else .setting label (String.ofList (value.dropWhile isLineBlank))
    | _ => .malformed

/-- The settings of a configuration by their headings; nothing if a line is malformed. -/
def readSettings (heading : Option String) :
    List String → Option (List ((String × String) × String))
  | [] => some []
  | line :: rest =>
    match readLine line, heading with
    | .empty, _ => readSettings heading rest
    | .heading name, _ => readSettings (some name) rest
    | .setting name value, some h => (readSettings heading rest).map (((h, name), value) :: ·)
    | _, _ => none

def newestVersion : Nat := 1

def isUnderstood (t : FileTree) (directory : Location) : Bool :=
  let text := (text? t (directory ++ ["config"])).getD ""
  match readSettings none (text.splitOn "\n") with
  | none => false
  | some settings =>
    match settings.reverse.lookup ("core", "repositoryformatversion") with
    | some version => version.toNat?.any (· ≤ newestVersion)
    | none => true

/-- The Git directory for a directory. Neither `ceiling` nor what lies above it is looked at. -/
def discover (t : FileTree) (ceiling directory : Location) : Option Location :=
  let count := match Location.below? ceiling directory with
    | some parts => max 1 parts.length
    | none => directory.length + 1
  (findUpward t directory count).filter (isUnderstood t)

/-- Where a program would start, which must be a directory; without one there are no facts. -/
def start? (t : FileTree) (directory : Location) : Except Fault (Option Location) :=
  match t.stat directory with
  | .ok .directory => (t.resolve directory).map some
  | .error .notFound => .ok none
  | .ok _ => .error (.file ⟨.notDirectory, Location.text directory⟩)
  | .error r => .error (.file ⟨r, Location.text directory⟩)

/-- The last reference that the head leads to, and its commit. -/
def head? (t : FileTree) (ceiling directory : Location) :
    Except Fault (Option (Location × String × String)) := do
  return (← start? t directory).bind fun real =>
    (discover t ceiling real).bind fun g =>
      (resolve? t g referenceLimit "HEAD").map fun (name, hash) => (g, name, hash)

def headSha (t : FileTree) (ceiling directory : Location) : Except Fault (Option String) := do
  return (← head? t ceiling directory).map fun (_, _, hash) => hash

/-- What stands before and after the short form of a reference in its name. -/
def shortForms : List (String × String) := [
  ("", ""), ("refs/", ""), ("refs/tags/", ""), ("refs/heads/", ""), ("refs/remotes/", ""),
  ("refs/remotes/", "/HEAD")]

def shortUnder? (form : String × String) (name : String) : Option String :=
  if name.startsWith form.1 && name.endsWith form.2 &&
      form.1.length + form.2.length < name.length then
    some (String.ofList ((name.toList.drop form.1.length).take
      (name.length - form.1.length - form.2.length)))
  else none

/-- The shortest form of a name that no other reference has. -/
def shortName (t : FileTree) (directory : Location) (name : String) : String :=
  let candidates := (shortForms.drop 1).reverse.filterMap fun form =>
    (shortUnder? form name).map fun short => (form, short)
  let isTaken (form : String × String) (short : String) : Bool :=
    shortForms.any fun other => other ≠ form &&
      (resolve? t directory referenceLimit (other.1 ++ short ++ other.2)).isSome
  ((candidates.find? fun (form, short) => !isTaken form short).map (·.2)).getD name

def currentRef (t : FileTree) (ceiling directory : Location) : Except Fault (Option String) := do
  return (← head? t ceiling directory).bind fun (g, name, _) =>
    if name = "HEAD" then none
    else
      let short := shortName t g name
      if short = "HEAD" || short.isEmpty then none else some short

end Conveyor.Git
