import Conveyor.Cache.Key
import Conveyor.World

/-!
Stores of caches. A store saves files of a project under a key and restores them; a store that can
tell old from new also prunes. What a job asks of its store is said here for all stores.
-/

namespace Conveyor

structure Restored where
  hit : Bool
  key : String
  reason : String
  deriving DecidableEq, Repr

/-- A store of caches; keys first, then the paths of the cache and the project directory. -/
structure Store (σ : Type) where
  restore : String → List String → Location → Action σ Restored
  save : String → List String → Location → Action σ Unit
  prune : Option (Option String → Int → Action σ Unit) := none
  root : Option Location := none

namespace Store

variable {σ : Type}

def restoreCache (s : Store σ) (c : CacheSpec) (project : Location) (key : String) :
    Action σ Restored :=
  if c.paths.isEmpty then return ⟨false, key, "no cache paths specified"⟩
  else s.restore key c.paths project

/-- Saves the cache of a job if its policy asks for that, and tells whether it did. -/
def saveCache (s : Store σ) (c : CacheSpec) (project : Location) (key : String)
    (succeeded : Bool) : Action σ Bool := do
  if c.paths.isEmpty then return false
  if ← Action.ask fun _ => c.policy.shouldSave succeeded then
    s.save key c.paths project
    return true
  else return false

end Store

end Conveyor
