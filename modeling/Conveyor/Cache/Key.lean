import Conveyor.Digest.Sha256
import Conveyor.Failure
import Conveyor.Files.Change
import Conveyor.Text.Hex

/-!
Cache keys. A key is the hash of the listed files, one after the other, or a literal; the scope is
put before it. A listed file that is not there is an error, since a hash of the others would name
another cache.
-/

namespace Conveyor

/-- The key of a job that lists no files and names no key. -/
def defaultKey : String := "default"

/-- How many bytes of a file are read at a time. -/
def readSize : Nat := 1024 * 1024

/-- Feeds what is read of a file, one piece after the other, until nothing is left. -/
def feedContent (s : Sha256.Hasher) (content : Bytes) : Sha256.Hasher :=
  if content.isEmpty then s
  else feedContent (s.feed (content.take readSize)) (content.drop readSize)
termination_by content.length
decreasing_by
  rename_i h
  have filled : 0 < content.length := List.length_pos_iff.mpr (by simpa using h)
  rw [List.length_drop, readSize]
  omega

def feedFiles (t : FileTree) (project : Location) (s : Sha256.Hasher) :
    List String → Except JobFailure Sha256.Hasher
  | [] => .ok s
  | name :: rest => do
    let place := Location.ofPath project (Path.ofText name)
    match t.isFile place with
    | .error f => throw (.fault f)
    | .ok false => throw (.error (.missingCacheInput name none))
    | .ok true =>
      match FileTree.orFault place (t.readFile place) with
      | .error f => throw (.fault f)
      | .ok content => feedFiles t project (feedContent s content.toBytes) rest

namespace CacheSpec

/-- What stands after the scope in the key. -/
def keyBody (c : CacheSpec) (t : FileTree) (project : Location) : Except JobFailure String :=
  if c.files.isEmpty then
    .ok ((c.key.filter fun k => !k.isEmpty).getD defaultKey)
  else do
    let s ← feedFiles t project {} c.files
    return Text.hexText s.finish

def resolveKey (c : CacheSpec) (t : FileTree) (project : Location) : Except JobFailure String := do
  let body ← c.keyBody t project
  match c.scope.filter fun s => !s.isEmpty with
  | some scope => return scope ++ ":" ++ body
  | none => return body

end CacheSpec

/-- Whether a policy asks for a save after the commands have run. -/
def SavePolicy.shouldSave (p : SavePolicy) (succeeded : Bool) : Except Fault Bool :=
  match p with
  | .always => .ok true
  | .onFailure => .ok !succeeded
  | .onSuccess => .ok succeeded
  | .unknown word => .error (.unknownPolicy word)

end Conveyor
