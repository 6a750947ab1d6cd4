import Conveyor.Table
import Conveyor.Text.Digit
import Conveyor.Trigger

/-!
Environments of commands, and the expansion of variable references in their values. A value may
refer to what was merged before it; a substituted text is not looked at again.
-/

namespace Conveyor

open Conveyor.Text

abbrev Environment := Table String String

/-- A stretch of a value: a reference to a variable with the text that it is written by, or a
character that belongs to none. -/
inductive Segment
  | reference (name written : List Char)
  | plain (c : Char)
  deriving DecidableEq, Repr

/-- The longest variable name at the start of a list of characters. -/
def leadingName : List Char → List Char
  | [] => []
  | c :: rest => if isNameStart c then c :: rest.takeWhile isNameChar else []

/-- The reference at the start of a list of characters, after its dollar sign: the name, and how
many characters it takes. -/
def referenceAt? (cs : List Char) : Option (List Char × Nat) :=
  let bare := leadingName cs
  if !bare.isEmpty then some (bare, bare.length)
  else match cs with
    | '\x7b' :: rest =>
      let name := leadingName rest
      if !name.isEmpty && (rest.drop name.length).head? = some '\x7d' then
        some (name, name.length + 2)
      else none
    | _ => none

/-- Splits a value into references and other characters, from left to right. -/
def segments : List Char → List Segment
  | [] => []
  | c :: rest =>
    if c = '$' then
      match referenceAt? rest with
      | some (name, n) => .reference name (c :: rest.take n) :: segments (rest.drop n)
      | none => .plain c :: segments rest
    else .plain c :: segments rest
termination_by cs => cs.length
decreasing_by all_goals simp only [List.length_drop, List.length_cons]; omega

namespace Environment

/-- What a stretch of a value becomes; a name that is not bound keeps its reference. -/
def expandSegment (env : Environment) : Segment → List Char
  | .reference name written =>
    match env.get? (String.ofList name) with
    | some value => value.toList
    | none => written
  | .plain c => [c]

def expand (env : Environment) (value : String) : String :=
  String.ofList ((segments value.toList).flatMap env.expandSegment)

def assign (env : Environment) (entry : String × String) : Environment :=
  env.put entry.1 (env.expand entry.2)

/-- Merges layers in order; later entries win. -/
def merge (base : Environment) (layers : List (List (String × String))) : Environment :=
  layers.flatten.foldl assign base

/-- What every job of a run starts from. Later settings win over what is inherited. -/
def ofRun (inherited : Environment) (project event cacheVariable cacheRoot : String)
    (sha ref : Option String) : Environment :=
  let env := inherited.putAll [("CI", "true"), ("CI_PROJECT_DIR", project),
    ("CI_PIPELINE_SOURCE", Kind.exported event), (cacheVariable, cacheRoot)]
  let optional (name : String) (value : Option String) : List (String × String) :=
    (value.filter fun v => !v.isEmpty).toList.map fun v => (name, v)
  env.putAll (optional "CI_COMMIT_SHA" sha ++ optional "CI_COMMIT_REF_NAME" ref)

end Environment

end Conveyor
