import Conveyor.Yaml.Cursor

/-!
Texts written as an indented block: literal, where line ends stay, and folded, where a line end
between two lines of words becomes a space.
-/

namespace Conveyor.Yaml.BlockText

/-- What becomes of the line ends at the end of a block. -/
inductive Chomp
  | clip
  | strip
  | keep
  deriving DecidableEq, Repr

def chompOf? (c : Char) : Option Chomp :=
  if c = '+' then some .keep else if c = '-' then some .strip else none

/-- What is read here, as messages name it. -/
def context : String := "while scanning a block scalar"

/-- An indentation given as a digit, which must not be zero. -/
def readIndent (start : Mark) (c : Cursor) : Except Fault (Option Nat × Cursor) :=
  if c.peek.isDigit then
    if c.peek = '0' then
      c.complain context start "expected indentation indicator in the range 1-9, but found 0"
    else .ok (some (c.peek.toNat - 0x30), c.step)
  else .ok (none, c)

/-- The indicators after the mark of a block: chomping and indentation, in either order. -/
def readIndicators (start : Mark) (c : Cursor) : Except Fault ((Chomp × Option Nat) × Cursor) := do
  let (chomp, indent, c) ← match chompOf? c.peek with
    | some chomp => do
      let (indent, c) ← readIndent start c.step
      pure (chomp, indent, c)
    | none => do
      let (indent, c) ← readIndent start c
      match indent, chompOf? c.peek with
      | some _, some chomp => pure (chomp, indent, c.step)
      | _, _ => pure (.clip, indent, c)
  if isSpaceOrEnd c.peek then return ((chomp, indent), c)
  c.complain context start ("expected chomping or indentation indicators, but found " ++ c.shown)

/-- The empty lines before a block whose indentation is found from its first line: their line ends,
and the deepest column that spaces reach. -/
def leadingLines : Nat → Nat → Cursor → List (List Char) × Nat × Cursor
  | 0, deepest, c => ([], deepest, c)
  | fuel + 1, deepest, c =>
    if c.peek = ' ' then
      let c := c.step
      leadingLines fuel (max deepest c.column) c
    else if isBreak c.peek then
      let (br, c) := c.takeBreak
      let (breaks, deepest, c) := leadingLines fuel deepest c
      (br :: breaks, deepest, c)
    else ([], deepest, c)

def skipToColumn : Nat → Cursor → Cursor
  | 0, c => c
  | n + 1, c => if c.peek = ' ' then skipToColumn n c.step else c

def emptyLines (indent : Nat) : Nat → Cursor → List (List Char) × Cursor
  | 0, c => ([], c)
  | fuel + 1, c =>
    let c := skipToColumn (indent - c.column) c
    if isBreak c.peek then
      let (br, c) := c.takeBreak
      let (breaks, c) := emptyLines indent fuel c
      (br :: breaks, c)
    else ([], c)

/-- The lines of a block. `breaks` are the empty lines before the line that starts here; the answer
holds the text, the last line end and the empty lines after it. -/
def readLines (folded : Bool) (indent : Nat) :
    Nat → List (List Char) → List Char → Cursor →
      List Char × List Char × List (List Char) × Cursor
  | 0, breaks, lineBreak, c => ([], lineBreak, breaks, c)
  | fuel + 1, breaks, lineBreak, c =>
    if c.column = indent && c.peek != endMark then
      let wordsAhead (c : Cursor) : Bool := c.peek != ' ' && c.peek != '\t'
      let startsWithWord := wordsAhead c
      let (line, c) := c.run (!isBreak ·)
      let (lineBreak, c) := c.takeBreak
      let (after, c) := emptyLines indent (c.rest.length + 1) c
      let joint :=
        if c.column = indent && c.peek != endMark then
          if folded && lineBreak = ['\n'] && startsWithWord && wordsAhead c then
            if after.isEmpty then [' '] else []
          else lineBreak
        else []
      let (more, lastBreak, trailing, c) := readLines folded indent fuel after lineBreak c
      (breaks.flatten ++ line ++ joint ++ more, lastBreak, trailing, c)
    else ([], lineBreak, breaks, c)

/-- Reads a block after its mark, inside a structure of the given indentation. -/
def read (folded : Bool) (outer : Int) (start : Mark) (c : Cursor) : Except Fault (List Char × Cursor) := do
  let ((chomp, given), c) ← readIndicators start c
  let c ← readLineEnd context start c
  let least := max 1 (outer + 1).toNat
  let fuel := c.rest.length + 1
  let (breaks, indent, c) := match given with
    | some n =>
      let indent := least + n - 1
      let (breaks, c) := emptyLines indent fuel c
      (breaks, indent, c)
    | none =>
      let (breaks, deepest, c) := leadingLines fuel 0 c
      (breaks, max least deepest, c)
  let (text, lastBreak, trailing, c) := readLines folded indent fuel breaks [] c
  let tail := match chomp with
    | .strip => []
    | .clip => lastBreak
    | .keep => lastBreak ++ trailing.flatten
  return (text ++ tail, c)

end Conveyor.Yaml.BlockText
