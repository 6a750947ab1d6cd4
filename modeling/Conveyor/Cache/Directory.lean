import Conveyor.Archive.Extract
import Conveyor.Cache.Manifest
import Conveyor.Cache.Name
import Conveyor.Cache.Selection
import Conveyor.Cache.Store

/-!
A store that keeps one archive and one manifest for each key in a directory. An archive is built aside
and put in place whole, so that a save that fails leaves what was saved before.
-/

namespace Conveyor

namespace FileTree

/-- Puts a file at a place, instead of a file or link that is there. -/
def replaceFile (t : FileTree) (l : Location) (c : Content) (modified : Int) :
    Except Refusal FileTree := do
  let place ← t.followParent l
  match t.entryAt? place with
  | some .directory => throw .isDirectory
  | _ => return t.set place (.file c modified)

/-- The archive members of selected files. A link is kept as a link. -/
def membersOf (t : FileTree) : List Selected → Except Fault (List Member)
  | [] => .ok []
  | s :: rest => do
    let place ← orFault s.place (t.followParent s.place)
    let body ← match t.entryAt? place with
      | some (.link target) => pure (MemberBody.link target)
      | _ => MemberBody.file <$> orFault s.place (t.readFile s.place)
    return .mk (Tar.memberName s.name) body :: (← membersOf t rest)

end FileTree

namespace DirectoryStore

variable {σ : Type}

/-- What a store adds to the name of a file while it is being written. -/
def draftEnding : String := "12345678.tmp"

/-- Where a file is written before it is put in its place. -/
def draftPlace (place : Location) : Location :=
  place.dropLast ++ [place.getLastD "" ++ draftEnding]

def artifactPlace (root : Location) (key : String) : Location :=
  root ++ [(StoredName.ofKey key).directory, (StoredName.ofKey key).artifact]

def manifestPlace (root : Location) (key : String) : Location :=
  root ++ [(StoredName.ofKey key).directory, (StoredName.ofKey key).manifest]

/-- The directory of a stored name, which is made if it is not there. -/
def openDirectory (root : Location) (name : String) : Action σ Location := do
  let place := root ++ [name]
  Action.onFiles (·.makeDirectories place)
  return place

/-- Puts a file in place of another. It is written under a longer name first. -/
def putFile (place : Location) (c : Content) (modified : Int) : Action σ Unit := do
  let draft := draftPlace place
  let _ ← Action.ask fun t => FileTree.orFault draft (t.followParent draft)
  Action.change place (·.replaceFile place c modified)

/-- The reason of a miss where there is an archive that cannot be restored. -/
def unusable (detail : String) : String := "cache exists but restore failed: " ++ detail

/-- What an extraction that stops means for the request. -/
def missOrFault (key : String) : Tar.ExtractFailure → Except Fault Restored
  | .refused e => .ok ⟨false, key, unusable e.message⟩
  | .reading .unreadable => .ok ⟨false, key, unusable "the archive cannot be read"⟩
  | .reading (.fault f) => .error f
  | .nulInName => .error .nulInPath
  | .noSuchMember name => .error (.noSuchKey ("linkname " ++ Text.quoted name ++ " not found"))

def extract (key : String) (project : Location) (content : Content) : Action σ Restored :=
  Action.onFiles fun t =>
    match ((Tar.Listing.ofContent content).extract project).run.run t with
    | (.ok (), t) => (.ok ⟨true, key, "cache hit: restored artifact"⟩, t)
    | (.error f, t) => (missOrFault key f, t)

def restore (root : Location) (key : String) (project : Location) : Action σ Restored := do
  let _ ← openDirectory root (StoredName.ofKey key).directory
  let artifact := artifactPlace root key
  if !(← Action.ask (·.hasPath artifact)) then return ⟨false, key, "cache miss"⟩
  let project ← Action.ask (·.resolve project)
  match (← get).files.readFile artifact with
  | .ok content => extract key project content
  | .error r => return ⟨false, key, unusable (FileError.message ⟨r, Location.text artifact⟩)⟩

/-- Saves what the paths lead to. The archive is made here when all files have been found, and not under
its draft name meanwhile: that name is chosen by the system, and shows only where the paths cover the
store. -/
def save (root : Location) (key : String) (paths : List String) (project : Location) :
    Action σ Unit := do
  let project ← Action.ask (·.resolve project)
  let _ ← openDirectory root (StoredName.ofKey key).directory
  let draft := draftPlace (artifactPlace root key)
  let _ ← Action.ask fun t => FileTree.orFault draft (t.followParent draft)
  let selected ← Action.ask (·.selection project paths)
  let members ← Action.ask (·.membersOf selected)
  modify fun w => { w with files := { w.files with clock := w.files.clock + 1 } }
  let now := (← get).files.clock
  putFile (artifactPlace root key) (.archive members) now
  let manifest : Manifest := ⟨key, paths, selected.map (·.name), now⟩
  putFile (manifestPlace root key) (.ofText manifest.text) now

/-- An archive of a store with its time of change. -/
structure Stored where
  name : String
  modified : Int
  deriving DecidableEq, Repr

def artifactName? (file : String) : Option String :=
  let cs := file.toList.reverse
  let ending := artifactEnding.toList.reverse
  if ending.isPrefixOf cs then some (String.ofList (cs.drop ending.length).reverse) else none

/-- The time of change of what stands at a place, if anything does; directories have none to speak
of. -/
def modifiedAt (t : FileTree) (l : Location) : Except Fault (Option Int) :=
  match t.stat l with
  | .ok (.file _ m) => .ok (some m)
  | .ok _ => .ok (some 0)
  | .error .notFound => .ok none
  | .error r => .error (.file ⟨r, Location.text l⟩)

/-- The archives with some names, as far as they are there. -/
def storedAmong (t : FileTree) (directory : Location) : List String → Except Fault (List Stored)
  | [] => .ok []
  | name :: rest => do
    match ← modifiedAt t (directory ++ [name ++ artifactEnding]) with
    | some m => return ⟨name, m⟩ :: (← storedAmong t directory rest)
    | none => storedAmong t directory rest

/-- The names of the archives in a directory, and none if it is not there. -/
def artifactNames (t : FileTree) (directory : Location) : List String :=
  match t.follow directory with
  | .ok place => if t.isDirectoryAt place then (t.names place).filterMap artifactName? else []
  | .error _ => []

def storedIn (t : FileTree) (directory : Location) : Except Fault (List Stored) :=
  storedAmong t directory (artifactNames t directory)

/-- The items after the first `keep`; a negative number counts from the end. -/
def dropKept (keep : Int) (items : List Stored) : List Stored :=
  items.drop (if keep < 0 then (items.length + keep).toNat else keep.toNat)

def removeIfThere (place : Location) : Action σ Unit :=
  Action.change place fun t => match t.removeFile place with
    | .error .notFound => .ok t
    | done => done

def removeStored (directory : Location) : List Stored → Action σ Unit
  | [] => pure ()
  | s :: rest => do
    removeIfThere (directory ++ [s.name ++ artifactEnding])
    removeIfThere (directory ++ [s.name ++ manifestEnding])
    removeStored directory rest

def prune (root : Location) (scope : Option String) (keep : Int) : Action σ Unit := do
  let directory ← openDirectory root (scopeDirectory scope)
  let found ← Action.ask (storedIn · directory)
  let newestFirst := found.mergeSort fun a b => b.modified ≤ a.modified
  removeStored directory (dropKept keep newestFirst)

def store (root : Location) : Store σ where
  restore key _ project := restore root key project
  save := save root
  prune := some (prune root)
  root := some root

/-- Opens the store below a directory, which is made if it is not there. -/
def openAt (place : Location) : Action σ (Store σ) := do
  let root ← Action.ask (·.resolve place)
  Action.onFiles (·.makeDirectories root)
  return store root

end DirectoryStore

end Conveyor
