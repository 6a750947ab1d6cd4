import Conveyor.Text.Blank
import Conveyor.Text.Digit

/-!
Whole numbers in texts: white space around, a sign, and digits of any script, where one underscore
may stand between two digits.
-/

namespace Conveyor.Number

open Conveyor.Text

/-- White space that may surround a number: all but the information separators. -/
def isNumberBlank (c : Char) : Bool := isBlank c && !(0x1c ≤ c.toNat && c.toNat ≤ 0x1f)

def trimNumber (s : String) : List Char :=
  let cs := s.toList.dropWhile isNumberBlank
  (cs.reverse.dropWhile isNumberBlank).reverse

/-- The digit values of a run of digits; `afterDigit` tells whether an underscore may come next. -/
def digitRun (afterDigit : Bool) : List Char → Option (List Nat)
  | [] => if afterDigit then some [] else none
  | c :: rest =>
    if c = '_' then if afterDigit then digitRun false rest else none
    else (digitValue? c).bind fun d => (digitRun true rest).map (d :: ·)

/-- The number that digits of the given base stand for. -/
def ofDigits (base : Nat) (ds : List Nat) : Nat := ds.foldl (fun n d => n * base + d) 0

/-- Takes a sign off the front: whether it is a minus, and what follows. -/
def splitSign : List Char → Bool × List Char
  | '-' :: rest => (true, rest)
  | '+' :: rest => (false, rest)
  | cs => (false, cs)

def signed (negative : Bool) (n : Nat) : Int := if negative then -(n : Int) else n

inductive IntegerError
  | malformed (text : String)
  | tooLong (digits : Nat)
  deriving DecidableEq, Repr

def IntegerError.message : IntegerError → String
  | .malformed text => "invalid literal for int() with base 10: " ++ text
  | .tooLong digits =>
    "Exceeds the limit (4300 digits) for integer string conversion: value has " ++
      toString digits ++ " digits; use sys.set_int_max_str_digits() to increase the limit"

def maxDigits : Nat := 4300

end Conveyor.Number
