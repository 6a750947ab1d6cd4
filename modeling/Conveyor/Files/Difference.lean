import Conveyor.Files.Change

/-!
What differs between two file trees, as steps that lead from the one to the other: what is gone is
removed from below, and directories are made from above.
-/

namespace Conveyor

inductive TreeStep
  | removeFile (l : Location)
  | removeDirectory (l : Location)
  | makeDirectory (l : Location)
  | writeFile (l : Location) (b : Bytes)
  deriving DecidableEq, Repr

namespace FileTree

/-- A link with the given target stands at a place. -/
def isLinkAt (t : FileTree) (l : Location) (target : String) : Bool :=
  match t.entryAt? l with
  | some (.link other) => other = target
  | _ => false

/-- The step that takes away what stood at a place, if something else or nothing stands there. -/
def removal? (after : FileTree) (l : Location) : Entry → Option TreeStep
  | .directory => if after.isDirectoryAt l then none else some (.removeDirectory l)
  | .link target => if after.isLinkAt l target then none else some (.removeFile l)
  | .file _ _ =>
    match after.entryAt? l with
    | some (.file _ _) => none
    | _ => some (.removeFile l)

/-- The step that puts at a place what stands there afterwards. A link is put there as a copy of the
file that it leads to. -/
def addition? (before after : FileTree) (l : Location) : Entry → Option TreeStep
  | .directory => if before.isDirectoryAt l then none else some (.makeDirectory l)
  | .link target =>
    if before.isLinkAt l target then none
    else match after.stat l with
      | .ok (.file c _) => some (.writeFile l c.toBytes)
      | _ => none
  | .file c _ =>
    match before.entryAt? l with
    | some (.file old _) =>
      if old.toBytes = c.toBytes then none else some (.writeFile l c.toBytes)
    | _ => some (.writeFile l c.toBytes)

/-- Entries with the places of fewer components first. -/
def byDepth (t : FileTree) : List (Location × Entry) :=
  t.entries.mergeSort fun a b => decide (a.1.length ≤ b.1.length)

def stepsTo (before after : FileTree) : List TreeStep :=
  before.byDepth.reverse.filterMap (fun (l, e) => after.removal? l e) ++
    after.byDepth.filterMap fun (l, e) => before.addition? after l e

end FileTree

end Conveyor
