import Conveyor.Number.Decimal
import Conveyor.Text.Quoted
import Conveyor.Value.Basic

/-!
Readings of an untyped value: as a whole number, and as a sequence of values.
-/

namespace Conveyor

open Conveyor.Number Conveyor.Text

inductive WholeError
  | text (e : IntegerError)
  | notANumber
  | infinite
  | wrongType
  deriving DecidableEq, Repr

def WholeError.message : WholeError → String
  | .text e => e.message
  | .notANumber => "cannot convert float NaN to integer"
  | .infinite => "cannot convert float infinity to integer"
  | .wrongType => "int() argument must be a string, a bytes-like object or a real number"

namespace Value

/-- The whole number of a value: of a text the one it spells, of a number its whole part. -/
def whole : Value → Except WholeError Int
  | .scalar (.int i) => .ok i
  | .scalar (.bool b) => .ok (if b then 1 else 0)
  | .scalar (.float .nan) => .error .notANumber
  | .scalar (.float x) => match x.truncate? with
    | some i => .ok i
    | none => .error .infinite
  | .scalar (.str s) => match parseInt quoted s with
    | .ok i => .ok i
    | .error e => .error (.text e)
  | _ => .error .wrongType

/-- The parts of a value that has parts: characters of a text, items of a list, keys of a mapping. -/
def parts? : Value → Option (List Value)
  | .scalar (.str s) => some (s.toList.map fun c => .str (String.singleton c))
  | .scalar (.bytes b) => some (b.map fun x => .int x.toNat)
  | .list items => some items
  | .mapping entries => some (entries.map fun e => .scalar e.1)
  | .set members => some (members.map .scalar)
  | .pair a b => some [a, b]
  | _ => none

end Value

end Conveyor
