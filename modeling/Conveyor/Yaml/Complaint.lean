import Conveyor.Text.Quoted

/-!
Complaints about a YAML text: a problem at a place, and what was being read when it was met. A place
is shown with its line and a caret below it.
-/

namespace Conveyor.Yaml

open Conveyor.Text

structure Mark where
  index : Nat := 0
  line : Nat := 0
  column : Nat := 0
  deriving DecidableEq, Repr

/-- What a problem was met in, and where that starts. -/
structure Context where
  text : String
  mark : Option Mark := none
  deriving DecidableEq, Repr

inductive Complaint
  | problem (context : Option Context) (text : String) (mark : Mark)
  | character (c : Char) (index : Nat)
  deriving DecidableEq, Repr

def isBreak (c : Char) : Bool :=
  c = '\n' || c = '\r' || c = '\x85' || c = '\u2028' || c = '\u2029'

namespace Mark

/-- How many characters of a line are shown on each side of a place. -/
def sight : Nat := 36

/-- The end of a part of a line, cut where it is longer than can be shown. -/
def cut (cs : List Char) : List Char × List Char :=
  if sight < cs.length then (cs.take (sight + 1 - 5), " ... ".toList) else (cs, [])

def excerpt (source : List Char) (m : Mark) : List Char :=
  let inLine (c : Char) : Bool := !(isBreak c || c = '\x00')
  let (before, head) := cut ((source.take m.index).reverse.takeWhile inLine)
  let (after, tail) := cut ((source.drop m.index).takeWhile inLine)
  let blanks := List.replicate 4 ' '
  blanks ++ head ++ before.reverse ++ after ++ tail ++ '\n' ::
    List.replicate (4 + before.length + head.length) ' ' ++ ['^']

def after (m : Mark) : Mark := ⟨m.index + 1, m.line, m.column + 1⟩

def text (source : List Char) (m : Mark) : String :=
  "  in \x22<unicode string>\x22, line " ++ toString (m.line + 1) ++ ", column " ++
    toString (m.column + 1) ++ ":\n" ++ String.ofList (m.excerpt source)

def isSamePlace (a b : Mark) : Bool := a.line = b.line && a.column = b.column

end Mark

def Complaint.text (source : List Char) : Complaint → String
  | .character c index =>
    "unacceptable character #x" ++ String.ofList (hexDigits 4 c.toNat) ++
      ": special characters are not allowed\n  in \x22<unicode string>\x22, position " ++
      toString index
  | .problem context what mark =>
    let start := (context.bind (·.mark)).filter fun m => !m.isSamePlace mark
    "\n".intercalate (context.toList.map (·.text) ++ start.toList.map (·.text source) ++
      [what, mark.text source])

def shownChar (c : Char) : String := quoted (String.singleton c)

end Conveyor.Yaml
