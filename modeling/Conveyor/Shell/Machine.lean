import Conveyor.Files.Change
import Conveyor.Shell.Script
import Conveyor.Text.Utf8

/-!
The state of a shell, and what its commands do to it: variables, streams, files and time. Time is
virtual: only commands that wait let it pass.
-/

namespace Conveyor.Shell

/-- What a stream is connected to. Streams that read and write one buffer form a pipe. -/
inductive Stream
  | buffer (id : Nat)
  | file (place : Location)
  | nothing
  | zeros
  deriving DecidableEq, Repr

structure Variable where
  value : String
  exported : Bool := false
  constant : Bool := false
  deriving DecidableEq, Repr

structure Machine where
  files : FileTree
  directory : Location
  bindings : Table String Variable := []
  parameters : List String := []
  name : String := "/bin/sh"
  process : Nat := 2
  status : Int := 0
  /-- The status of the last command whose output became part of a word. -/
  substituted : Int := 0
  line : Nat := 1
  /-- The command of the shell that runs the statements, where messages name it. -/
  speaker : Option String := none
  options : List Char := []
  functions : Table String Statement := []
  /-- What is done on signals, by their numbers; zero is the end of the shell. -/
  traps : Table Nat String := []
  inFunction : Bool := false
  /-- The commands in the background that are done, by their numbers, with their status. -/
  jobs : List (Nat × Int) := []
  loops : Nat := 0
  /-- The variables that the current function puts back. -/
  locals : List String := []
  streams : Table Nat Stream := [(0, .nothing), (1, .buffer 1), (2, .buffer 2)]
  /-- Contents of buffers in chunks with their times, the newest first. -/
  buffers : Table Nat (List (Nat × Bytes)) := [(1, []), (2, [])]
  nextBuffer : Nat := 3
  now : Nat := 0
  /-- When the last command in the background is done. -/
  backgroundEnd : Nat := 0
  /-- When the shell is stopped. -/
  limit : Option Nat := none

/-- What ends the work of a shell, or of a part of it, before its end. -/
inductive Stop
  | exit (status : Int)
  | killed (signal : Nat)
  | expired
  | leaveLoop (levels : Nat)
  | nextRound (levels : Nat)
  | leaveFunction
  deriving DecidableEq, Repr

/-- Work of a shell. What was done before a stop stays done. -/
abbrev Flow (α : Type) := ExceptT Stop (StateM Machine) α

namespace Machine

def value? (m : Machine) (name : String) : Option String := (m.bindings.get? name).map (·.value)

def environment (m : Machine) : List (String × String) :=
  (m.bindings.filter fun e => e.2.exported).map fun (n, v) => (n, v.value)

def has (m : Machine) (option : Char) : Bool := m.options.contains option

/-- The content of a buffer: its chunks in the order of their times. -/
def content (m : Machine) (id : Nat) : Bytes :=
  let chunks := ((m.buffers.get? id).getD []).reverse
  let inTime := if m.backgroundEnd = 0 then chunks
    else chunks.mergeSort fun a b => decide (a.1 ≤ b.1)
  (inTime.map (·.2)).flatten

/-- The place of a path; an empty path has none. -/
def place? (m : Machine) (path : String) : Except Refusal Location :=
  if path.isEmpty then .error .notFound
  else .ok (Location.ofPath m.directory (Path.ofText path))

/-- What a path leads to. A path that ends with a separator leads to directories only. -/
def stat (m : Machine) (path : String) : Except Refusal Entry := do
  match ← m.files.stat (← m.place? path) with
  | .file c t => if path.endsWith "/" then throw .notDirectory else return .file c t
  | e => return e

/-- What stands at a path, where links are not followed. -/
def standing (m : Machine) (path : String) : Except Refusal Entry := do
  if path.endsWith "/" then return ← m.stat path
  match m.files.entryAt? (← m.files.followParent (← m.place? path)) with
  | some e => return e
  | none => throw .notFound

def isDirectory (m : Machine) (path : String) : Bool :=
  match m.stat path with
  | .ok .directory => true
  | _ => false

end Machine

namespace Flow

def exit {α : Type} (status : Int) : Flow α := throw (.exit (status % 256))

def setStatus (status : Int) : Flow Unit := modify fun m => { m with status }

def appendTo (t : FileTree) (place : Location) (b : Bytes) : FileTree :=
  match t.entryAt? place with
  | some (.file c time) => t.set place (.file (.bytes (c.toBytes ++ b)) time)
  | _ => t

def write (stream : Nat) (b : Bytes) : Flow Unit :=
  modify fun m =>
    match m.streams.get? stream with
    | some (.buffer id) =>
      { m with buffers := m.buffers.put id ((m.now, b) :: (m.buffers.get? id).getD []) }
    | some (.file place) => { m with files := appendTo m.files place b }
    | _ => m

def print (b : Bytes) : Flow Unit := write 1 b

def printText (s : String) : Flow Unit := print (Text.encode s)

def printLine (s : String) : Flow Unit := printText (s ++ "\n")

def complain (s : String) : Flow Unit := write 2 (Text.encode (s ++ "\n"))

def warn (s : String) : Flow Unit := do
  let m ← get
  let speaker := (m.speaker.map (· ++ ": ")).getD ""
  complain (m.name ++ ": " ++ toString m.line ++ ": " ++ speaker ++ s)

/-- Runs work on behalf of a command that its messages name. -/
def speakingAs {α : Type} (speaker : Option String) (work : Flow α) : Flow α :=
  ExceptT.mk fun m =>
    let (answer, n) := work.run.run { m with speaker }
    (answer, { n with speaker := m.speaker })

def abort {α : Type} (s : String) : Flow α := do
  warn s
  exit 2

/-- Sets a variable, unless it is a constant. -/
def setVariable (name value : String) : Flow Unit := do
  let m ← get
  let old := (m.bindings.get? name).getD ⟨"", false, false⟩
  if old.constant then abort (name ++ ": is read only")
  set { m with bindings :=
    m.bindings.put name { old with value, exported := old.exported || m.has 'a' } }

/-- Changes what a variable is but for its value. -/
def markVariable (name : String) (f : Variable → Variable) : Flow Unit :=
  modify fun m =>
    { m with bindings := m.bindings.put name (f ((m.bindings.get? name).getD ⟨"", false, false⟩)) }

def exportVariable (name : String) : Flow Unit :=
  markVariable name fun v => { v with exported := true }

def readAll (stream : Nat) : Flow Bytes := do
  let m ← get
  match m.streams.get? stream with
  | some (.buffer id) =>
    set { m with buffers := m.buffers.put id [] }
    return m.content id
  | _ => return []

/-- Puts bytes back that were taken from a stream. -/
def unread (stream : Nat) (b : Bytes) : Flow Unit :=
  modify fun m =>
    match m.streams.get? stream with
    | some (.buffer id) => { m with buffers := m.buffers.put id [(m.now, b)] }
    | _ => m

def newBuffer (b : Bytes) : Flow Nat := do
  let m ← get
  set { m with buffers := m.buffers.put m.nextBuffer [(m.now, b)], nextBuffer := m.nextBuffer + 1 }
  return m.nextBuffer

def pass (nanoseconds : Nat) : Flow Unit := do
  let m ← get
  let later := m.now + nanoseconds
  match m.limit with
  | some limit => if limit ≤ later then throw .expired
  | none => pure ()
  set { m with now := later }

/-- The status of a shell whose work has ended. -/
def statusAfter (stop : Except Stop Unit) (m : Machine) : Int :=
  match stop with
  | .error (.exit status) => status
  | .error (.killed signal) => 128 + signal
  | _ => m.status

/-- What a part of a shell with a state of its own leaves behind: files, buffers and time. -/
def keep (m child : Machine) : Machine :=
  { m with
    files := child.files, buffers := child.buffers, nextBuffer := child.nextBuffer
    now := child.now, backgroundEnd := child.backgroundEnd }

/-- Runs work as a part of the shell with a state of its own; the answer is its exit status. A
signal to the shell ends the shell. -/
def isolated (work : Flow Unit) : Flow Int :=
  ExceptT.mk fun m =>
    let (answer, child) := work.run.run m
    match answer with
    | .error .expired => (.error .expired, keep m child)
    | .error (.killed signal) =>
      if child.process = m.process then (.error (.killed signal), keep m child)
      else (.ok (128 + signal), keep m child)
    | answer => (.ok (statusAfter answer child), keep m child)

/-- Runs work with some streams, and puts the streams back after it. -/
def withStreams {α : Type} (streams : Table Nat Stream) (work : Flow α) : Flow α :=
  ExceptT.mk fun m =>
    let (answer, n) := work.run.run { m with streams }
    (answer, { n with streams := m.streams })

def change (f : FileTree → Except Refusal FileTree) : Flow (Except Refusal Unit) :=
  modifyGet fun m =>
    match f m.files with
    | .ok files => (.ok (), { m with files })
    | .error r => (.error r, m)

end Flow

end Conveyor.Shell
