import Conveyor.Calendar
import Conveyor.Number.Binary64
import Conveyor.Table
import Conveyor.Text.Utf8

/-!
Untyped values, as a definition file holds them before they are checked: scalars, lists and
mappings. A mapping keeps the order of its keys, and numbers that are equal are one key, whether
they are whole, floating or truth values.
-/

namespace Conveyor

open Conveyor.Number

inductive Scalar
  | null
  | bool (b : Bool)
  | int (i : Int)
  | float (x : Binary64)
  | str (s : String)
  | bytes (b : Bytes)
  | date (d : Date)
  | moment (t : Moment)
  deriving Repr

namespace Scalar

/-- The whole number that a truth value or a whole number stands for. -/
def int? : Scalar → Option Int
  | .bool b => some (if b then 1 else 0)
  | .int i => some i
  | _ => none

def sameKey (a b : Scalar) : Bool :=
  match a, b with
  | .null, .null => true
  | .str s, .str t => s == t
  | .bytes x, .bytes y => x == y
  | .date x, .date y => x == y
  | .moment x, .moment y => x == y
  | .float x, .float y => x.numEq y
  | .float x, b => b.int?.any x.eqInt
  | a, .float y => a.int?.any y.eqInt
  | a, b => a.int?.isSome && a.int? == b.int?

instance : BEq Scalar := ⟨sameKey⟩

end Scalar

inductive Value
  | scalar (s : Scalar)
  | list (items : List Value)
  | mapping (entries : List (Scalar × Value))
  | set (members : List Scalar)
  | pair (first second : Value)
  | loop (isMapping : Bool)

namespace Value

@[match_pattern] def null : Value := .scalar .null

@[match_pattern] def bool (b : Bool) : Value := .scalar (.bool b)

@[match_pattern] def int (i : Int) : Value := .scalar (.int i)

@[match_pattern] def float (x : Binary64) : Value := .scalar (.float x)

@[match_pattern] def str (s : String) : Value := .scalar (.str s)

instance : Inhabited Value := ⟨null⟩

end Value

abbrev Fields := Table Scalar Value

namespace Fields

def field? (f : Fields) (name : String) : Option Value := f.get? (.str name)

/-- The value of a named field; a field that is not there is null. -/
def field (f : Fields) (name : String) : Value := (f.field? name).getD .null

end Fields

end Conveyor
