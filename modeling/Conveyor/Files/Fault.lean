import Conveyor.Outcome

/-!
What goes wrong in the file system and around it, and how it is reported.
-/

namespace Conveyor

open Conveyor.Text

inductive Refusal
  | notFound
  | alreadyExists
  | notDirectory
  | isDirectory
  | nameTooLong
  | directoryNotEmpty
  | linkLoop
  deriving DecidableEq, Repr

namespace Refusal

def number : Refusal → Nat
  | .notFound => 2
  | .alreadyExists => 17
  | .notDirectory => 20
  | .isDirectory => 21
  | .nameTooLong => 36
  | .directoryNotEmpty => 39
  | .linkLoop => 40

def text : Refusal → String
  | .notFound => "No such file or directory"
  | .alreadyExists => "File exists"
  | .notDirectory => "Not a directory"
  | .isDirectory => "Is a directory"
  | .nameTooLong => "File name too long"
  | .directoryNotEmpty => "Directory not empty"
  | .linkLoop => "Too many levels of symbolic links"

def className : Refusal → String
  | .notFound => "FileNotFoundError"
  | .alreadyExists => "FileExistsError"
  | .notDirectory => "NotADirectoryError"
  | .isDirectory => "IsADirectoryError"
  | _ => "OSError"

end Refusal

structure FileError where
  refusal : Refusal
  path : String
  deriving DecidableEq, Repr

def FileError.message (e : FileError) : String :=
  "[Errno " ++ toString e.refusal.number ++ "] " ++ e.refusal.text ++ ": " ++ quoted e.path

/-- Whatever may come instead of an answer from the file system, a store or a command runner. A store
and a runner may also fail by an error that jobs declare. -/
inductive Fault
  | file (e : FileError)
  | linkLoop (path : String)
  | nulInPath
  | outside (path root : String)
  | unknownPolicy (word : String)
  | noSuchKey (key : String)
  | archiveCutShort
  | archiveDamaged (text : String)
  | foreign (className text : String)
  | declared (e : JobError)
  deriving DecidableEq, Repr

namespace Fault

def className : Fault → String
  | .file e => e.refusal.className
  | .linkLoop _ => "RuntimeError"
  | .nulInPath | .outside _ _ | .unknownPolicy _ => "ValueError"
  | .noSuchKey _ => "KeyError"
  | .archiveCutShort => "EOFError"
  | .archiveDamaged _ => "error"
  | .foreign c _ => c
  | .declared e => e.className

def text : Fault → String
  | .file e => e.message
  | .linkLoop path => "Symlink loop from " ++ quoted path
  | .nulInPath => "embedded null byte"
  | .outside path root =>
    quoted path ++ " is not in the subpath of " ++ quoted root ++
      " OR one path is relative and the other is absolute."
  | .unknownPolicy word => "Unknown cache policy: " ++ quoted word
  | .noSuchKey key => quoted key
  | .archiveCutShort => "Compressed file ended before the end-of-stream marker was reached"
  | .archiveDamaged text => text
  | .foreign _ text => text
  | .declared e => e.message

def report (f : Fault) : String := f.className ++ ": " ++ f.text

end Fault

end Conveyor
