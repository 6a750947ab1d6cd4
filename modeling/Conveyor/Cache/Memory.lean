import Conveyor.Cache.Selection
import Conveyor.Cache.Store

/-!
A store that keeps the bytes of files in memory.
-/

namespace Conveyor

namespace FileTree

def readSelected (t : FileTree) : List Selected → Except Fault Blob
  | [] => .ok []
  | s :: rest => do
    let content ← orFault s.place (t.readFile s.place)
    return (s.name, content) :: (← readSelected t rest)

end FileTree

namespace MemoryStore

variable {σ : Type}

/-- Writes files of a blob below a directory, one after the other. -/
def writeFiles (project : Location) : Blob → Action σ Unit
  | [] => pure ()
  | (name, content) :: rest => do
    let place := Location.ofPath project (Path.ofText name)
    Action.onFiles (·.makeDirectories place.parent)
    Action.change place (·.writeFile place content)
    writeFiles project rest

def restore (key : String) (project : Location) : Action σ Restored := do
  match (← get).blobs.get? key with
  | none => return ⟨false, key, "cache miss"⟩
  | some blob =>
    writeFiles project blob
    return ⟨true, key, "cache hit: restored from memory"⟩

def save (key : String) (paths : List String) (project : Location) : Action σ Unit := do
  let selected ← Action.ask (·.selection project paths)
  let files ← Action.ask (·.readSelected selected)
  modify fun w => { w with blobs := w.blobs.put key (Table.ofEntries files) }

def store : Store σ where
  restore key _ project := restore key project
  save := save

end MemoryStore

end Conveyor
