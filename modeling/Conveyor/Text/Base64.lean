import Conveyor.Text.Utf8

/-!
Texts that spell bytes in base 64, in the alphabet for file names and without padding.
-/

namespace Conveyor.Text

/-- The digits of base 64 that are safe in file names. -/
def base64Alphabet : List Char :=
  "ABCDEFGHIJKLMNOPQRSTUVWXYZabcdefghijklmnopqrstuvwxyz0123456789-_".toList

def base64Digit (n : Nat) : Char := base64Alphabet.getD n 'A'

/-- The digits of some bytes: four for each three bytes, and one more than the bytes at the end. -/
def sextets : Bytes → List Nat
  | a :: b :: c :: rest =>
    a.toNat / 4 :: (a.toNat % 4 * 16 + b.toNat / 16) :: (b.toNat % 16 * 4 + c.toNat / 64) ::
      c.toNat % 64 :: sextets rest
  | [a, b] => [a.toNat / 4, a.toNat % 4 * 16 + b.toNat / 16, b.toNat % 16 * 4]
  | [a] => [a.toNat / 4, a.toNat % 4 * 16]
  | [] => []

def base64 (bytes : Bytes) : List Char := (sextets bytes).map base64Digit

end Conveyor.Text
