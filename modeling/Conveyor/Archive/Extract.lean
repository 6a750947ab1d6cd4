import Conveyor.Archive.Listing
import Conveyor.Files.Change

/-!
Extraction of archives below a directory. Members are put in place one after the other, as their
names say: through links, above the directory for double dots, and anywhere for absolute names. What
was put in place before a failure stays.

Entries of the tree have no permissions, and what is extracted gets no time of its own from its member,
so these are not told here. The one time that is told is that of the target of a hard link.
-/

namespace Conveyor.Tar

/-- Why an extraction stops. -/
inductive ExtractFailure
  | refused (e : FileError)
  | reading (r : ReadFailure)
  | nulInName
  | noSuchMember (name : String)
  deriving DecidableEq, Repr

/-- Work on a file tree that may stop; what was done stays done. -/
abbrev Extraction := ExceptT ExtractFailure (StateM FileTree)

def change (l : Location) (f : FileTree → Except Refusal FileTree) : Extraction Unit :=
  ExceptT.mk fun t => match f t with
    | .ok t => (.ok (), t)
    | .error r => (.error (.refused ⟨r, Location.text l⟩), t)

/-- Goes on after a failure that the file system causes. -/
def onRefusal (work : Extraction Unit) (otherwise : FileError → Extraction Unit) :
    Extraction Unit :=
  ExceptT.mk fun t => match work.run.run t with
    | (.error (.refused e), t) => (otherwise e).run.run t
    | done => done

def stands (l : Location) : Extraction Bool := do
  return (← get).stat l |>.toBool

def standsItself (l : Location) : Extraction Bool := do
  let t ← get
  match t.followParent l with
  | .ok place => return (t.entryAt? place).isSome
  | .error _ => return false

def makeMissing (l : Location) : Extraction Unit := do
  let above := l.dropLast
  if _h : above ≠ [] then
    if !(← stands above) then
      onRefusal (makeMissing above) fun e =>
        if e.refusal = .alreadyExists then pure () else throw (.refused e)
      if l.getLastD "" = "." then return
  change l (·.makeDirectory l)
termination_by l.length
decreasing_by
  cases l with
  | nil => exact absurd rfl _h
  | cons c rest => simp

def rawParts (name : String) : List String :=
  ((splitSlashes name.toList).map String.ofList).filter (· ≠ "")

/-- Where a member goes. -/
def target (root : Location) (name : String) : Location :=
  if name.startsWith "/" then rawParts name else root ++ rawParts name

/-- Takes away components that double dots cancel. -/
def cancelDots (isAbsolute : Bool) : List String → List String → List String
  | done, [] => done.reverse
  | done, c :: rest =>
    if c = ".." then
      match done with
      | [] => cancelDots isAbsolute (if isAbsolute then [] else [c]) rest
      | d :: above =>
        if d = ".." then cancelDots isAbsolute (c :: done) rest else cancelDots isAbsolute above rest
    else cancelDots isAbsolute (c :: done) rest

/-- A path by which names of members are compared. -/
def plainPath (p : Path) : Path := ⟨p.root, cancelDots p.isAbsolute [] p.parts⟩

/-- The last of some members with a name, and the members before it. -/
def findLast (p : Path) : List Member → Option (Member × List Member)
  | [] => none
  | m :: rest =>
    match findLast p rest with
    | some (found, before) => some (found, m :: before)
    | none => if plainPath (Path.ofText m.name) = plainPath p then some (m, []) else none

/-- The path that a link in an archive leads to, seen from the top of the archive. -/
def linkedPath (name link : String) : Path :=
  let p := Path.ofText name
  let q := Path.ofText link
  if p.parts.length < 2 then q else ⟨p.root, p.parts.dropLast ++ q.parts⟩

/-- All members are needed for a search; they are there if the archive can be read to its end. -/
def Listing.search (listing : Listing) (p : Path) (among : List Member) :
    Extraction (Option (Member × List Member)) := do
  match listing.failure with
  | some f => throw (.reading f)
  | none => return findLast p among

def endlessSearch : ExtractFailure :=
  .reading (.fault (.foreign "RecursionError" "maximum recursion depth exceeded"))

/-- Puts what the archive holds for a path in place of a member. -/
def Listing.substitute (listing : Listing) (again : List Member → Member → Extraction Unit) (p : Path)
    (among : List Member) (otherwise : Extraction Unit) : Extraction Unit := do
  match ← listing.search p among with
  | some (found, before) => again before found
  | none => otherwise

/-- The directory of a place, which is made if it is not there. -/
def makeRoom (l : Location) : Extraction Unit := do
  if l.any fun c => c.toList.contains '\x00' then throw .nulInName
  if !(← stands l.dropLast) then makeMissing l.dropLast

/-- Puts what a member is at a place; `again` puts another member there. A link that cannot be made is
replaced by what the archive holds for its target, if it holds anything. -/
def Listing.placeBody (listing : Listing) (root : Location)
    (again : List Member → Member → Extraction Unit) (before : List Member) (name : String)
    (l : Location) : MemberBody → Extraction Unit
  | .file c => change l (·.writeFile l c)
  | .directory =>
    onRefusal (change l (·.makeDirectory l)) fun e =>
      if e.refusal = .alreadyExists then pure () else throw (.refused e)
  | .special => do
    if ← standsItself l then throw (.refused ⟨.alreadyExists, Location.text l⟩)
  | .link text =>
    onRefusal (do
        if ← standsItself l then change l (·.removeFile l)
        change l (·.makeLink l text))
      fun _ => listing.substitute again (linkedPath name text) listing.members (pure ())
  | .hardLink text => do
    let source := target root text
    if ← stands source then
      onRefusal (change l (·.addName source l)) fun _ =>
        listing.substitute again (Path.ofText text) before (pure ())
    else listing.substitute again (Path.ofText text) before (throw (.noSuchMember text))

/-- Puts a member in its place; `before` are the members before it. -/
def Listing.place (listing : Listing) (root : Location) : Nat → List Member → Member → Location →
    Extraction Unit
  | 0, _, _, _ => throw endlessSearch
  | fuel + 1, before, m, l => do
    makeRoom l
    listing.placeBody root (fun before found => listing.place root fuel before found l) before m.name l
      m.body

def Listing.placeAll (listing : Listing) (root : Location) (before : List Member) :
    List Member → Extraction Unit
  | [] => pure ()
  | m :: rest => do
    listing.place root (listing.members.length + 2) before m (target root m.name)
    listing.placeAll root (before ++ [m]) rest

def Listing.extract (listing : Listing) (root : Location) : Extraction Unit := do
  listing.placeAll root [] listing.members
  match listing.broken with
  | some (name, kept) =>
    listing.place root 1 [] (.mk name (.file (.bytes kept))) (target root name)
  | none => pure ()
  match listing.failure with
  | some f => throw (.reading f)
  | none => pure ()

end Conveyor.Tar
