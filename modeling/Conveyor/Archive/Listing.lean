import Conveyor.Archive.Gzip
import Conveyor.Archive.Header
import Conveyor.Table

/-!
Listings of archives: the members that can be read, in their order, and what stops the reading. An
archive that ends early between two members just ends there.
-/

namespace Conveyor.Tar

/-- What stops the reading of an archive: that it cannot be read, or a fault of its decompression. -/
inductive ReadFailure
  | unreadable
  | fault (f : Fault)
  deriving DecidableEq, Repr

namespace ReadFailure

/-- The failure of a reader that reaches the ending of a stream too early. -/
def ofEnding : StreamEnding → ReadFailure
  | .finished | .malformed => .unreadable
  | .cutShort => .fault .archiveCutShort
  | .damaged d => .fault (.archiveDamaged ("Error -3 while decompressing data: " ++ d.text))

/-- The failure while a header is read, where damage counts as a malformed archive. -/
def ofHeaderEnding : StreamEnding → ReadFailure
  | .cutShort => .fault .archiveCutShort
  | _ => .unreadable

end ReadFailure

/-- What an archive holds: its members, then perhaps a file whose data breaks off with the part of it
that is read whole, and what stops the reading if it does not end by itself. -/
structure Listing where
  members : List Member
  broken : Option (String × Bytes)
  failure : Option ReadFailure

/-- The listing of an archive that is read to its end. -/
def Listing.whole (members : List Member) : Listing := ⟨members, none, none⟩

/-- Reads at most `n` bytes from a place of a stream; a stream that finishes gives what there is. -/
def readAt (s : Stream) (start n : Nat) : Except StreamEnding Bytes :=
  if start + n ≤ s.readable.size ∨ s.ending = .finished then
    .ok (s.readable.extract start (start + n)).toList
  else .error s.ending

inductive MemberFault
  | header (f : HeaderFault)
  | subsequent
  | stream (e : StreamEnding)
  deriving DecidableEq, Repr

/-- A member that was found: its header, where its data starts and where the next member starts. -/
structure Found where
  header : Header
  dataStart : Nat
  next : Nat

/-- The data of a member takes room in the archive. -/
def hasData (h : Header) : Bool := h.kind = .file

/-- Attributes that hold for all members that follow. -/
abbrev Attributes := Table String String

def Found.ofHeader (h : Header) (start : Nat) : Found :=
  ⟨h, start, if hasData h then start + blocks h.size else start⟩

/-- The header behind an extension must be there. -/
def following : Except MemberFault (Found × Attributes) → Except MemberFault (Found × Attributes)
  | .error (.header _) => .error .subsequent
  | found => found

/-- Finds the member at a place of a stream, through the extensions in front of it. -/
def findMember (s : Stream) : Nat → Attributes → Nat → Except MemberFault (Found × Attributes)
  | 0, _, _ => .error .subsequent
  | fuel + 1, common, start =>
    match readAt s start blockSize with
    | .error e => .error (.stream e)
    | .ok block =>
      match Header.ofBlock block with
      | .error f => .error (.header f)
      | .ok h =>
        let start := start + blockSize
        if h.kind = .longName ∨ h.kind = .longLink then
          match readAt s start (blocks h.size) with
          | .error e => .error (.stream e)
          | .ok data => do
            let (found, common) ← following (findMember s fuel common (start + data.length))
            let text := fieldText data
            let header := if h.kind = .longName then { found.header with name := text }
              else { found.header with link := text }
            return ({ found with header }, common)
        else if h.kind = .attributes ∨ h.kind = .globalAttributes then
          match readAt s start (blocks h.size) with
          | .error e => .error (.stream e)
          | .ok data =>
            match attributesOf data with
            | .error f => .error (.header f)
            | .ok own => do
              let isGlobal := h.kind = .globalAttributes
              let all := common.putAll own
              let (found, common) ← following
                (findMember s fuel (if isGlobal then all else common) (start + data.length))
              if isGlobal then return (found, common)
              let header := found.header.withAttributes all
              if all.has "size" then return (.ofHeader header found.dataStart, common)
              return ({ found with header }, common)
        else
          let patched := h.withAttributes common
          return (⟨patched, start, (Found.ofHeader h start).next⟩, common)

/-- The size of the pieces in which the data of a file is written. -/
def copySize : Nat := 16384

def bodyOf (h : Header) : MemberBody :=
  match h.kind with
  | .hardLink => .hardLink h.link
  | .link => .link h.link
  | .directory => .directory
  | _ => .special

/-- Lists the members from a place of a stream on; `isFirst` holds for the first of them, which must
be there. Each takes at least one block. -/
def listFrom (s : Stream) (isFirst : Bool) : Nat → Attributes → Nat → Listing
  | 0, _, _ => ⟨[], none, some .unreadable⟩
  | fuel + 1, common, start =>
    if s.readable.size < start then ⟨[], none, some (.ofEnding s.ending)⟩
    else match findMember s (s.readable.size / blockSize + 2) common start with
      | .error (.header .endMark) => .whole []
      | .error (.header _) => if isFirst then ⟨[], none, some .unreadable⟩ else .whole []
      | .error .subsequent => ⟨[], none, some .unreadable⟩
      | .error (.stream e) => ⟨[], none, some (.ofHeaderEnding e)⟩
      | .ok (found, common) =>
        let h := found.header
        let stop := found.dataStart + h.size
        if hasData h && decide (s.readable.size < stop) then
          let kept := (s.readable.size - found.dataStart) / copySize * copySize
          let part := s.readable.extract found.dataStart (found.dataStart + kept)
          ⟨[], some (h.name, part.toList), some (.ofEnding s.ending)⟩
        else
          let body := if hasData h then
              .file (.bytes (s.readable.extract found.dataStart stop).toList)
            else bodyOf h
          let rest := listFrom s false fuel common found.next
          { rest with members := .mk h.name body :: rest.members }

def Listing.ofBytes (bytes : Bytes) : Listing :=
  let s := Gzip.stream bytes
  listFrom s true (s.readable.size / blockSize + 2) [] 0

/-- The listing of what a store keeps under a key. -/
def Listing.ofContent : Content → Listing
  | .archive members => .whole members
  | .bytes b => .ofBytes b

end Conveyor.Tar
