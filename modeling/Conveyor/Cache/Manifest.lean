import Conveyor.Text.Quoted

/-!
Manifests of saved caches: a short JSON text with the key, the paths that were asked for, the files
that were saved and the time.
-/

namespace Conveyor

open Conveyor.Text

structure Manifest where
  key : String
  paths : List String
  files : List String
  savedAt : Int
  deriving DecidableEq, Repr

namespace Manifest

/-- One character of a JSON text. Only what must be escaped is escaped. -/
def jsonChar (c : Char) : List Char :=
  if c = '\x22' ∨ c = '\\' then ['\\', c]
  else if c = '\n' then ['\\', 'n']
  else if c = '\r' then ['\\', 'r']
  else if c = '\t' then ['\\', 't']
  else if c = '\x0c' then ['\\', 'f']
  else if c = '\x08' then ['\\', 'b']
  else if c.toNat < 0x20 then '\\' :: 'u' :: hexDigits 4 c.toNat
  else [c]

def jsonText (s : String) : String :=
  String.ofList ('\x22' :: s.toList.flatMap jsonChar ++ ['\x22'])

def jsonList (items : List String) : String :=
  if items.isEmpty then "[]"
  else "[\n" ++ ",\n".intercalate (items.map fun i => "    " ++ jsonText i) ++ "\n  ]"

def text (m : Manifest) : String :=
  let fields := [("files", jsonList m.files), ("key", jsonText m.key), ("paths", jsonList m.paths),
    ("saved_at_unix", toString m.savedAt)]
  "\x7b\n" ++ ",\n".intercalate (fields.map fun (name, v) => "  " ++ jsonText name ++ ": " ++ v) ++
    "\n\x7d"

end Manifest

end Conveyor
