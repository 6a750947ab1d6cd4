import Conveyor.Text.Base64

/-!
Names under which a store keeps what it saves. A key is split at its last colon into a scope and a
name; plain words stand for themselves, and any other text is spelled in base 64 after a marker that
no plain word starts with. So distinct keys have distinct names, and no name leads out of the store.
-/

namespace Conveyor

open Conveyor.Text

/-- A word that may stand for itself in a file name. -/
def isPlainWord (cs : List Char) : Bool := !cs.isEmpty && cs.all Char.isAlphanum

/-- The file name of a text: itself, or a marker and its spelling. -/
def storedWord (marker : List Char) (cs : List Char) : List Char :=
  if isPlainWord cs then cs else marker ++ base64 (encode (String.ofList cs))

def scopeMarker : List Char := ['~']

def nameMarker : List Char := ['k', '-']

def unscoped : String := "_"

def scopeDirectory (scope : Option String) : String :=
  match scope with
  | none => unscoped
  | some s => if s.isEmpty then unscoped else String.ofList (storedWord scopeMarker s.toList)

/-- The parts of a text before and after its last colon. -/
def splitLastColon : List Char → Option (List Char × List Char)
  | [] => none
  | c :: rest =>
    match splitLastColon rest with
    | some (before, after) => some (c :: before, after)
    | none => if c = ':' then some ([], rest) else none

/-- Where a store keeps a key: a directory, and a name in it. -/
@[ext]
structure StoredName where
  directory : String
  name : String
  deriving DecidableEq, Repr

def StoredName.ofKey (key : String) : StoredName :=
  match splitLastColon key.toList with
  | some (scope, name) =>
    ⟨String.ofList (storedWord scopeMarker scope), String.ofList (storedWord nameMarker name)⟩
  | none => ⟨unscoped, String.ofList (storedWord nameMarker key.toList)⟩

/-- The endings of the two files of a key. -/
def artifactEnding : String := ".tar.gz"

def manifestEnding : String := ".manifest.json"

def StoredName.artifact (n : StoredName) : String := n.name ++ artifactEnding

def StoredName.manifest (n : StoredName) : String := n.name ++ manifestEnding

end Conveyor
