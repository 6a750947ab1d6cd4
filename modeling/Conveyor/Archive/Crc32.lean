import Conveyor.Text.Utf8

/-!
The checksum CRC-32 with the reflected polynomial.
-/

namespace Conveyor.Crc32

/-- One bit of the division. -/
def shift (r : UInt32) : UInt32 :=
  if r &&& 1 = 1 then (r >>> 1) ^^^ 0xedb88320 else r >>> 1

def step (r : UInt32) (b : UInt8) : UInt32 :=
  Nat.repeat shift 8 (r ^^^ b.toUInt32)

def checksum (bytes : Bytes) : UInt32 := ~~~(bytes.foldl step 0xffffffff)

end Conveyor.Crc32
