import Conveyor.Archive.Crc32

/-!
Archives as bytes. A tar archive is a row of blocks: one with the header of a member, then the blocks
of its data. A gzip stream around it stores the bytes as they are.
-/

namespace Conveyor

def lowFirst : Nat → Nat → Bytes
  | 0, _ => []
  | n + 1, value => value.toUInt8 :: lowFirst n (value / 256)

namespace Tar

def blockSize : Nat := 512

/-- The size of the blocks that hold `n` bytes. -/
def blocks (n : Nat) : Nat := (n + blockSize - 1) / blockSize * blockSize

def filled (size : Nat) (b : Bytes) : Bytes := b ++ List.replicate (size - b.length) 0

def inBlocks (data : Bytes) : Bytes := filled (blocks data.length) data

def octalDigits : Nat → Nat → Bytes
  | 0, _ => []
  | width + 1, n => octalDigits width (n / 8) ++ [(0x30 + n % 8).toUInt8]

/-- A number field of a header: octal digits and a zero byte. -/
def numberField (width n : Nat) : Bytes := octalDigits (width - 1) n ++ [0]

def nameSize : Nat := 100

/-- The header of a member: who may read and write it is the same for all, and so is its time. -/
def headerBlock (name : Bytes) (flag : Char) (size : Nat) (link : Bytes) : Bytes :=
  let before := filled nameSize (name.take nameSize) ++ numberField 8 0o644 ++ numberField 8 0 ++
    numberField 8 0 ++ numberField 12 size ++ numberField 12 0
  let after := flag.toNat.toUInt8 :: filled nameSize (link.take nameSize) ++
    Text.encode "ustar" ++ [0, 0x30, 0x30]
  let sum := (before ++ after).foldl (fun n b => n + b.toNat) (8 * 0x20)
  filled blockSize (before ++ octalDigits 6 sum ++ [0, 0x20] ++ after)

/-- What stands before the header of a member whose name does not fit into its field. -/
def longText (flag : Char) (text : Bytes) : Bytes :=
  if text.length ≤ nameSize then []
  else
    headerBlock (Text.encode "././@LongLink") flag (text.length + 1) [] ++ inBlocks (text ++ [0])

def member (name : String) (flag : Char) (link : String) (data : Bytes) : Bytes :=
  let name := Text.encode name
  let link := Text.encode link
  longText 'K' link ++ longText 'L' name ++ headerBlock name flag data.length link ++ inBlocks data

def endMark : Bytes := List.replicate (2 * blockSize) 0

end Tar

namespace Gzip

/-- The most bytes that are stored in one piece. -/
def storedSize : Nat := 65535

def storedPiece (isLast : Bool) (b : Bytes) : Bytes :=
  (if isLast then 1 else 0) :: lowFirst 2 b.length ++ lowFirst 2 (storedSize - b.length) ++ b

def storedPieces (b : Bytes) : Bytes :=
  if b.length ≤ storedSize then storedPiece true b
  else storedPiece false (b.take storedSize) ++ storedPieces (b.drop storedSize)
termination_by b.length
decreasing_by simp only [List.length_drop, storedSize] at *; omega

def stored (b : Bytes) : Bytes :=
  [0x1f, 0x8b, 8, 0, 0, 0, 0, 0, 0, 0xff] ++ storedPieces b ++
    lowFirst 4 (Crc32.checksum b).toNat ++ lowFirst 4 b.length

end Gzip

end Conveyor
