import Conveyor.Pipeline.Error
import Conveyor.Yaml.Complaint

/-!
A place in a YAML text: what is left of it, and the line and column where that starts. Columns are
what block structure is made of, so every move goes through `Cursor.step`.
-/

namespace Conveyor.Yaml

/-- Why a text is no document: it breaks the grammar, or spells a value that does not exist. -/
inductive Fault
  | grammar (c : Complaint)
  | value (f : ScalarFault)
  deriving DecidableEq, Repr

/-- The mark of the end of a text, which is no character of it. -/
def endMark : Char := '\x00'

def isBreakOrEnd (c : Char) : Bool := c = endMark || isBreak c

def isSpaceOrEnd (c : Char) : Bool := c = ' ' || isBreakOrEnd c

/-- The end of a word. -/
def isGapOrEnd (c : Char) : Bool := c = '\t' || isSpaceOrEnd c

def isWordChar (c : Char) : Bool := c.isAlphanum || c = '-' || c = '_'

/-- Characters that a YAML text may hold. -/
def isAllowed (c : Char) : Bool :=
  c = '\t' || c = '\n' || c = '\r' || (0x20 ≤ c.toNat && c.toNat ≤ 0x7e) || c = '\x85' ||
    (0xa0 ≤ c.toNat && c.toNat ≤ 0xfffd) || 0x10000 ≤ c.toNat

structure Cursor where
  rest : List Char
  index : Nat := 0
  line : Nat := 0
  column : Nat := 0
  deriving Repr

namespace Cursor

def mark (c : Cursor) : Mark := ⟨c.index, c.line, c.column⟩

def complain {α : Type} (c : Cursor) (context : String) (start : Mark) (problem : String) :
    Except Fault α :=
  .error (.grammar (.problem (some ⟨context, some start⟩) problem c.mark))

/-- The character `n` places ahead. -/
def ahead (c : Cursor) (n : Nat) : Char := (c.rest.drop n).headD endMark

def peek (c : Cursor) : Char := c.rest.headD endMark

/-- Moves over one character; the two characters of a line end count as one end. -/
def step (c : Cursor) : Cursor :=
  match c.rest with
  | [] => c
  | ch :: rest =>
    if isBreak ch && !(ch = '\r' && rest.head? = some '\n') then ⟨rest, c.index + 1, c.line + 1, 0⟩
    else ⟨rest, c.index + 1, c.line, if ch = '\ufeff' then c.column else c.column + 1⟩

def move : Nat → Cursor → Cursor
  | 0, c => c
  | n + 1, c => move n c.step

/-- The run of characters ahead that satisfy `p`, and the place after it. -/
def run (c : Cursor) (p : Char → Bool) : List Char × Cursor :=
  let taken := c.rest.takeWhile p
  (taken, c.move taken.length)

/-- Skips the run of characters ahead that satisfy `p`. -/
def skip (c : Cursor) (p : Char → Bool) : Cursor := (c.run p).2

def skipSpaces (c : Cursor) : Cursor := c.skip (· = ' ')

def skipComment (c : Cursor) : Cursor :=
  if c.peek = '#' then c.skip (!isBreak ·) else c

/-- Takes a line end, as the text that it contributes: nothing if there is none. -/
def takeBreak (c : Cursor) : List Char × Cursor :=
  let ch := c.peek
  if ch = '\r' && c.ahead 1 = '\n' then (['\n'], c.move 2)
  else if ch = '\n' || ch = '\r' || ch = '\x85' then (['\n'], c.step)
  else if isBreak ch then ([ch], c.step)
  else ([], c)

def atMarker (c : Cursor) (m : Char) : Bool :=
  c.peek = m && c.ahead 1 = m && c.ahead 2 = m && isGapOrEnd (c.ahead 3)

/-- One of the two document markers stands here. -/
def atDocumentMarker (c : Cursor) : Bool := c.atMarker '-' || c.atMarker '.'

end Cursor

/-- The next character as a message names it. -/
def Cursor.shown (c : Cursor) : String := shownChar c.peek

/-- The end of a line: spaces and a comment may come before it. -/
def readLineEnd (context : String) (start : Mark) (c : Cursor) : Except Fault Cursor :=
  let c := c.skipSpaces.skipComment
  if isBreakOrEnd c.peek then .ok c.takeBreak.2
  else c.complain context start ("expected a comment or a line break, but found " ++ c.shown)

end Conveyor.Yaml
