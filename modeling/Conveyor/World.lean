import Conveyor.Files.Change

/-!
What jobs work on: the file tree, the memory of stores that keep caches in memory, and a part that a
command runner or a store may use as its own. An action changes the world and may end in a fault; what
it changed before the fault stays changed.
-/

namespace Conveyor

/-- Saved files by their paths in the project. -/
abbrev Blob := Table String Content

structure World (σ : Type) where
  files : FileTree := {}
  blobs : Table String Blob := []
  own : σ

/-- Work on the world. -/
abbrev Action (σ : Type) := ExceptT Fault (StateM (World σ))

namespace Action

variable {σ α : Type}

def ask (f : FileTree → Except Fault α) : Action σ α :=
  ExceptT.mk fun w => (f w.files, w)

/-- A change of the file tree that may stop halfway. -/
def onFiles (f : FileTree → Except Fault α × FileTree) : Action σ α :=
  ExceptT.mk fun w =>
    let (answer, t) := f w.files
    (answer, { w with files := t })

def change (l : Location) (f : FileTree → Except Refusal FileTree) : Action σ Unit :=
  onFiles fun t => match f t with
    | .ok t => (.ok (), t)
    | .error r => (.error (.file ⟨r, Location.text l⟩), t)

/-- Goes on with the fault of an action as an answer. -/
def attempt (work : Action σ α) : Action σ (Except Fault α) :=
  ExceptT.mk fun w =>
    let (answer, w) := work.run.run w
    (.ok answer, w)

end Action

end Conveyor
