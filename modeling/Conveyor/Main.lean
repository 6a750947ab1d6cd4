import Conveyor.CommandLine.Execute
import Conveyor.Files.Difference

/-!
The program. It reads the files around it into a file tree, executes its command line on that tree,
writes back what has changed, and prints what was told.
-/

namespace Conveyor.Program

open Conveyor.CommandLine

/-- Entries of a file tree in the order in which they are read. -/
abbrev Entries := Array (Location × Entry)

/-- Reads what stands in a directory, and everything below it. What cannot be read is left out. -/
partial def readBelow (found : Entries) (l : Location) (directory : IO.FS.DirEntry) :
    IO Entries := do
  let here := l ++ [directory.fileName]
  let path := directory.path
  try
    let info ← path.symlinkMetadata
    match info.type with
    | .dir =>
      let inner ← path.readDir
      inner.foldlM (fun found e => readBelow found here e) (found.push (here, .directory))
    | .file =>
      let bytes ← IO.FS.readBinFile path
      return found.push (here, .file (.bytes bytes.toList) info.modified.sec)
    | .symlink => return found.push (here, .link (toString (← IO.FS.realPath path)))
    | .other => return found
  catch _ => return found

/-- Reads everything below a directory, which has a place of its own among those above it. -/
def readRoot (found : Entries) (l : Location) : IO Entries := do
  try
    let entries ← (← IO.FS.realPath (Location.text l)).readDir
    entries.foldlM (fun found e => readBelow found l e) found
  catch _ => return found

/-- The directory of a place and all directories above it, from above. -/
def directoriesTo (l : Location) : List (Location × Entry) :=
  (List.range l.length).map fun n => (l.take (n + 1), .directory)

/-- The directories that a command line may work in: the one where it starts, and those of absolute
paths in its arguments. -/
def rootsOf (directory : Location) (arguments : List String) : List Location :=
  let paths := (arguments.filter (·.startsWith "/")).map pathParts
  (directory :: paths.filter fun l => !directory.isPrefixOf l).eraseDups

/-- Reads the file tree of a command line. Its clock is the latest time of change. -/
def readTree (roots : List Location) : IO FileTree := do
  let above := roots.flatMap directoriesTo
  let found ← roots.foldlM readRoot #[]
  let latest := found.foldl (fun n e => match e.2 with
    | .file _ m => max n m
    | _ => n) 0
  return { entries := Table.ofEntries above ++ found.toList, clock := latest }

/-- A variable as the system writes it. -/
def readVariable (written : Bytes) : String × String :=
  let text := (Text.decodeLossy written).toList
  let name := text.takeWhile (· ≠ '=')
  (String.ofList name, String.ofList (text.drop (name.length + 1)))

def readEnvironment : IO Environment := do
  try
    let bytes ← IO.FS.readBinFile "/proc/self/environ"
    let written := (bytes.toList.splitOn 0).filter (!·.isEmpty)
    return Table.ofEntries (written.map readVariable)
  catch _ => return []

/-- Takes a step in the file system. -/
def take : TreeStep → IO Unit
  | .removeFile l => IO.FS.removeFile (Location.text l)
  | .removeDirectory l => IO.FS.removeDir (Location.text l)
  | .makeDirectory l => IO.FS.createDirAll (Location.text l)
  | .writeFile l b => IO.FS.writeBinFile (Location.text l) ⟨b.toArray⟩

def print (p : Printed) : IO Unit := do
  IO.print p.out
  IO.eprint p.err

def run (arguments : List String) : IO Nat := do
  let environment ← readEnvironment
  let directory := pathParts (toString (← IO.currentDir))
  let files ← readTree (rootsOf directory arguments)
  let home := (environment.get? "HOME").getD "/"
  let r := execute ⟨environment, home, directory, []⟩ arguments { files, own := () }
  (files.stepsTo r.world.files).forM take
  print r.printed
  print r.ending.printed
  return r.ending.status

end Conveyor.Program

def main (arguments : List String) : IO UInt32 := do
  return (← Conveyor.Program.run arguments).toUInt32
