import Conveyor.Files.Tree
import Conveyor.Pipeline.Load
import Conveyor.Text.Newline

/-!
Pipelines from definition files. A path may start at the home directory of a user.
-/

namespace Conveyor

open Conveyor.Text

/-- Home directories: the one of the user, and those of other users by name. -/
structure Homes where
  own : String
  others : Table String String := []

def systemHomes : Table String String := [
  ("root", "/root"), ("daemon", "/usr/sbin"), ("bin", "/bin"), ("sys", "/dev"), ("sync", "/bin"),
  ("games", "/usr/games"), ("man", "/var/cache/man"), ("lp", "/var/spool/lpd"),
  ("mail", "/var/mail"), ("news", "/var/spool/news"), ("uucp", "/var/spool/uucp"),
  ("proxy", "/bin"), ("www-data", "/var/www"), ("backup", "/var/backups"), ("list", "/var/list"),
  ("irc", "/run/ircd"), ("_apt", "/nonexistent"), ("nobody", "/nonexistent")]

def Homes.named? (h : Homes) (component : String) : Option String :=
  match component.toList with
  | ['~'] => some h.own
  | '~' :: user => h.others.get? (String.ofList user)
  | _ => none

/-- The path with a home directory in place of its first component; none if there is no such home. -/
def Path.expandHome (p : Path) (h : Homes) : Option Path :=
  match p.parts with
  | first :: rest =>
    if !p.isAbsolute && first.startsWith "~" then
      (h.named? first).map fun home =>
        let start := Path.ofText home
        ⟨start.root, start.parts ++ rest⟩
    else some p
  | [] => some p

inductive FileLoadError
  | load (e : LoadError)
  | noHome
  | nulInPath
  | notText
  deriving Repr

def FileLoadError.message : FileLoadError → String
  | .load (.definition e) => e.message
  | .load (.reference r) => r.message
  | .load (.merge _) => "a field has a name that is no text"
  | .load (.value _) => "a value is spelled that does not exist"
  | .noHome => "there is no such home directory"
  | .nulInPath => Fault.nulInPath.text
  | .notText => "the definition is no text"

namespace Pipeline

def readingError (p : Path) (r : Refusal) : DefinitionError :=
  if r = .notFound then .notFound p.text else .unreadable p.text (FileError.message ⟨r, p.text⟩)

def ofFile (t : FileTree) (homes : Homes) (directory : Location) (path : String) :
    Except FileLoadError Pipeline := do
  match (Path.ofText path).expandHome homes with
  | none => throw .noHome
  | some p =>
    if p.text.toList.contains '\x00' then throw .nulInPath
    let content ← match t.stat (Location.ofPath directory p) with
      | .ok (.file content _) => pure content
      | .ok _ => throw (.load (.definition (readingError p .isDirectory)))
      | .error r => throw (.load (.definition (readingError p r)))
    match decode? content.toBytes with
    | none => throw .notText
    | some text => (ofText (unifyNewlines text)).mapError .load

end Pipeline

end Conveyor
