import Conveyor.Archive.Pack

/-!
Contents of files. An archive that a cache store has written is kept as its members, so that what is
restored is what was saved by construction; every other content is bytes.
-/

namespace Conveyor

mutual

inductive Content
  | bytes (b : Bytes)
  | archive (members : List Member)

/-- An entry of an archive: its name and what it is. -/
inductive Member
  | mk (name : String) (body : MemberBody)

inductive MemberBody
  | file (c : Content)
  | directory
  | link (target : String)
  | hardLink (target : String)
  | special

end

namespace Member

def name : Member → String
  | .mk n _ => n

def body : Member → MemberBody
  | .mk _ b => b

end Member

namespace Content

instance : Inhabited Content := ⟨.bytes []⟩

def ofText (s : String) : Content := .bytes (Text.encode s)

mutual

def toBytes : Content → Bytes
  | .bytes b => b
  | .archive members => Gzip.stored (packed members ++ Tar.endMark)

def packedMember : Member → Bytes
  | .mk name body => packedBody name body

def packedBody (name : String) : MemberBody → Bytes
  | .file c => Tar.member name '0' "" (toBytes c)
  | .directory => Tar.member (name ++ "/") '5' "" []
  | .link target => Tar.member name '2' target []
  | .hardLink target => Tar.member name '1' target []
  | .special => Tar.member name '6' "" []

def packed : List Member → Bytes
  | [] => []
  | m :: rest => packedMember m ++ packed rest

end

end Content

end Conveyor
