import Conveyor.Value.Basic

/-!
Merging of mappings. Mappings are merged key by key, everything else is replaced; a key that ends in
the append marker adds to the list that is there.
-/

namespace Conveyor

/-- Why two mappings cannot be merged: a key of the overriding one is no text. -/
inductive MergeError
  | keyNotText (key : Scalar)
  deriving Repr

/-- The field that an append marker `field+` names; a plus alone is an ordinary key. -/
def appendTarget? (key : String) : Option String :=
  match key.toList.reverse with
  | '+' :: c :: rest => some (String.ofList (c :: rest).reverse)
  | _ => none

namespace Value

/-- The value as a list: null is empty, a list is itself, anything else is a list of one. -/
def asList : Value → List Value
  | .null => []
  | .list items => items
  | v => [v]

end Value

mutual

/-- What becomes of a field with the given current value, if any, when a value is merged over it. -/
def Value.mergeOver (current : Option Value) : Value → Except MergeError Value
  | .mapping inner =>
    match current with
    | some (.mapping fields) => (Fields.merge fields inner).map .mapping
    | _ => .ok (.mapping inner)
  | v => .ok v

/-- Merges the entries of an overriding mapping, in order, into the fields of the base. -/
def Fields.merge (base : Fields) : List (Scalar × Value) → Except MergeError Fields
  | [] => .ok base
  | (.str key, v) :: rest =>
    match appendTarget? key with
    | some target =>
      Fields.merge (base.put (.str target) (.list ((base.field target).asList ++ v.asList))) rest
    | none =>
      match Value.mergeOver (base.field? key) v with
      | .ok merged => Fields.merge (base.put (.str key) merged) rest
      | .error e => .error e
  | (key, _) :: _ => .error (.keyNotText key)

end

end Conveyor
