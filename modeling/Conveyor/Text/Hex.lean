import Conveyor.Text.Utf8

/-!
Digits of base sixteen, and texts that spell bytes with two of them each. Written digits are in lower
case; either case is read.
-/

namespace Conveyor.Text

def hexDigit (n : Nat) : Char :=
  if n < 10 then Char.ofNat (0x30 + n) else Char.ofNat (0x57 + n)

def hexDigits : Nat → Nat → List Char
  | 0, _ => []
  | width + 1, n => hexDigits width (n / 16) ++ [hexDigit (n % 16)]

def hexValue? (c : Char) : Option Nat :=
  if c.isDigit then some (c.toNat - 0x30)
  else if 'a' ≤ c && c ≤ 'f' then some (c.toNat - 0x57)
  else if 'A' ≤ c && c ≤ 'F' then some (c.toNat - 0x37)
  else none

def hexText (b : Bytes) : String := String.ofList (b.flatMap fun n => hexDigits 2 n.toNat)

def hexBytes? : List Char → Option Bytes
  | [] => some []
  | [_] => none
  | a :: b :: rest => do
    let high ← hexValue? a
    let low ← hexValue? b
    return (high * 16 + low).toUInt8 :: (← hexBytes? rest)

end Conveyor.Text
