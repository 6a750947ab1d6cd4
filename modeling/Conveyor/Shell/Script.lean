/-!
Scripts of the shell as trees: words with the expansions in them, redirections, and statements.
-/

namespace Conveyor.Shell

/-- What becomes of a parameter when it is expanded. -/
inductive Change
  | keep
  | length
  | useDefault
  | assignDefault
  | demand
  | alternative
  | dropStart (longest : Bool)
  | dropEnd (longest : Bool)
  /-- Signs that ask for no change: the script is well formed, but its expansion fails. -/
  | unknown
  deriving DecidableEq, Repr

/-- The word of a change is a pattern, which quotes around the parameter do not quote. -/
def Change.takesPattern : Change → Bool
  | .dropStart _ | .dropEnd _ => true
  | _ => false

/-- How the script of a command inside a word is marked off. Between brackets it counts the lines of
the script around it, between backquotes its own. -/
inductive CommandMarks
  | brackets
  | backquotes
  deriving DecidableEq, Repr

/-- A part of a word. Quoted parts are neither split nor matched against names. -/
inductive Part
  | text (s : String) (quoted : Bool)
  | parameter (name : String) (change : Change) (whenEmpty : Bool) (word : List Part)
      (quoted : Bool)
  | command (script : String) (marks : CommandMarks) (line : Nat) (quoted : Bool)
  | arithmetic (word : List Part) (quoted : Bool)
  deriving Repr

abbrev Word := List Part

inductive RedirectKind
  | read
  | write
  | append
  | duplicate
  | here
  deriving DecidableEq, Repr

structure Redirect where
  stream : Nat
  kind : RedirectKind
  target : Word
  deriving Repr

inductive Statement
  | empty
  | simple (line : Nat) (assignments : List (String × Word)) (words : List Word)
      (redirects : List Redirect)
  | redirected (body : Statement) (redirects : List Redirect)
  | subshell (body : Statement)
  | pipeline (parts : List Statement)
  | negation (body : Statement)
  | both (first second : Statement)
  | either (first second : Statement)
  | sequence (first second : Statement)
  | background (body : Statement)
  | conditional (condition body otherwise : Statement)
  | loop (stopsOn : Bool) (condition body : Statement)
  | forEach (name : String) (words : Option (List Word)) (body : Statement)
  | choice (subject : Word) (branches : List (List Word × Statement))
  | function (name : String) (body : Statement)
  deriving Repr

end Conveyor.Shell
