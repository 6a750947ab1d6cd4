import Conveyor.Text.Quoted
import Conveyor.Text.Utf8

/-!
Why bytes are no text: the first broken sequence and what is wrong with it.
-/

namespace Conveyor.Text

/-- What is wrong with a sequence whose lead byte is `b`, of which `n` bytes after it are good. -/
def sequenceFlaw (b : UInt8) (n : Nat) (rest : Bytes) : String :=
  if (sequenceShape b).isNone then "invalid start byte"
  else if rest.length = n then "unexpected end of data"
  else "invalid continuation byte"

/-- A report of a broken sequence at a position. -/
def flawReport (position : Nat) (b : UInt8) (n : Nat) (rest : Bytes) : String :=
  let place := if n = 0 then
      "byte 0x" ++ String.ofList (hexDigits 2 b.toNat) ++ " in position " ++ toString position
    else "bytes in position " ++ toString position ++ "-" ++ toString (position + n)
  "'utf-8' codec can't decode " ++ place ++ ": " ++ sequenceFlaw b n rest

/-- The report of the first broken sequence. -/
def flawAfter? (position : Nat) : Bytes → Option String
  | [] => none
  | b :: rest =>
    match readChar b rest with
    | (some _, n) => flawAfter? (position + n + 1) (rest.drop n)
    | (none, n) => some (flawReport position b n rest)
termination_by bs => bs.length
decreasing_by simp only [List.length_drop, List.length_cons]; omega

/-- The text of bytes, or the report of their first broken sequence. -/
def decode (bs : Bytes) : Except String String :=
  match decode? bs with
  | some s => .ok s
  | none => .error ((flawAfter? 0 bs).getD "")

end Conveyor.Text
