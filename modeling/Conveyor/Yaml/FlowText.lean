import Conveyor.Yaml.Cursor

/-!
Texts written on the line: between single or double quotes, and plain words. A line end inside is a
space, and each empty line after it a line end.
-/

namespace Conveyor.Yaml.FlowText

open Conveyor.Text

def escapes : List (Char × Char) := [
  ('0', '\x00'), ('a', '\x07'), ('b', '\x08'), ('t', '\t'), ('\t', '\t'), ('n', '\n'),
  ('v', '\x0b'), ('f', '\x0c'), ('r', '\r'), ('e', '\x1b'), (' ', ' '), ('\x22', '\x22'),
  ('\\', '\\'), ('/', '/'), ('N', '\x85'), ('_', '\xa0'), ('L', '\u2028'), ('P', '\u2029')]

/-- How many digits of base sixteen follow a letter after a backslash. -/
def escapeWidth? (c : Char) : Option Nat :=
  if c = 'x' then some 2 else if c = 'u' then some 4 else if c = 'U' then some 8 else none

/-- The number that `n` digits of base sixteen spell. -/
def hexNumber? (n : Nat) (cs : List Char) : Option Nat :=
  if cs.length < n then none
  else ((cs.take n).mapM hexValue?).map fun ds => ds.foldl (fun a d => a * 16 + d) 0

/-- The character of a number; half of a surrogate pair has no meaning of its own. -/
def characterOf (n : Nat) : Except Fault Char :=
  if n < 0x110000 then
    .ok (if 0xd800 ≤ n && n ≤ 0xdfff then '\ufffd' else Char.ofNat n)
  else if n < 0x80000000 then .error (.value .noSuchCharacter)
  else .error (.value .characterOutOfRange)

/-- What is read here, as messages name it. -/
def context : String := "while scanning a quoted scalar"

/-- The line ends at the start of lines that hold nothing else; no document marker may come. -/
def emptyLines (start : Mark) : Nat → Cursor → Except Fault (List Char × Cursor)
  | 0, c => .ok ([], c)
  | fuel + 1, c =>
    if c.atDocumentMarker then c.complain context start "found unexpected document separator"
    else
      let c := c.skip fun ch => ch = ' ' || ch = '\t'
      if isBreak c.peek then do
        let (br, c) := c.takeBreak
        let (more, c) ← emptyLines start fuel c
        return (br ++ more, c)
      else .ok ([], c)

/-- What a line end becomes, given the line ends of the empty lines after it. -/
def folded (lineBreak after : List Char) : List Char :=
  if lineBreak != ['\n'] then lineBreak ++ after else if after.isEmpty then [' '] else after

def readSpaces (start : Mark) (c : Cursor) : Except Fault (List Char × Cursor) :=
  let (spaces, c) := c.run fun ch => ch = ' ' || ch = '\t'
  if c.peek = endMark then c.complain context start "found unexpected end of stream"
  else if isBreak c.peek then do
    let (lineBreak, c) := c.takeBreak
    let (after, c) ← emptyLines start (c.rest.length + 1) c
    return (folded lineBreak after, c)
  else .ok (spaces, c)

/-- What an escape is read in, as messages name it. -/
def escapeContext : String := "while scanning a double-quoted scalar"

/-- What a backslash and the character after it stand for; the cursor is after the backslash. -/
def readEscape (start : Mark) (c : Cursor) : Except Fault (List Char × Cursor) :=
  match escapes.lookup c.peek with
  | some e => .ok ([e], c.step)
  | none =>
    match escapeWidth? c.peek with
    | some n =>
      let c := c.step
      match hexNumber? n c.rest with
      | some code => do return ([← characterOf code], c.move n)
      | none =>
        let digits := ((c.rest.take n).takeWhile fun d => (hexValue? d).isSome).length
        c.complain escapeContext start ("expected escape sequence of " ++ toString n ++
          " hexadecimal numbers, but found " ++ shownChar (c.ahead digits))
    | none =>
      if isBreak c.peek then emptyLines start (c.rest.length + 1) c.takeBreak.2
      else c.complain escapeContext start ("found unknown escape character " ++ c.shown)

def readQuoted (double : Bool) (start : Mark) :
    Nat → Cursor → Except Fault (List Char × Cursor)
  | 0, c => c.complain context start "found unexpected end of stream"
  | fuel + 1, c => do
    let ch := c.peek
    let continueWith (part : Except Fault (List Char × Cursor)) : Except Fault (List Char × Cursor) := do
      let (cs, c) ← part
      let (more, c) ← readQuoted double start fuel c
      return (cs ++ more, c)
    if ch = endMark || isGapOrEnd ch then continueWith (readSpaces start c)
    else if double then
      if ch = '\x22' then return ([], c.step)
      else if ch = '\\' then continueWith (readEscape start c.step)
      else continueWith (.ok ([ch], c.step))
    else if ch = '\x27' then
      if c.ahead 1 = '\x27' then continueWith (.ok (['\x27'], c.move 2)) else return ([], c.step)
    else continueWith (.ok ([ch], c.step))

/-- The white space after a word of a plain text: what it becomes if the text goes on, or nothing
where a document marker follows, and whether it spans lines. -/
def plainLines : Nat → Cursor → Option (List Char) × Cursor
  | 0, c => (some [], c)
  | fuel + 1, c =>
    if c.atDocumentMarker then (none, c)
    else
      let c := c.skipSpaces
      if isBreak c.peek then
        let (br, c) := c.takeBreak
        let (more, c) := plainLines fuel c
        (more.map (br ++ ·), c)
      else (some [], c)

/-- The gap after a word of a plain text: nothing where the text ends, and whether it spans lines. -/
def plainGap (c : Cursor) : Option (List Char) × Bool × Cursor :=
  let (spaces, c) := c.run (· = ' ')
  if isBreak c.peek then
    let (lineBreak, c) := c.takeBreak
    let (after, c) := plainLines (c.rest.length + 1) c
    (after.map (folded lineBreak), true, c)
  else (if spaces.isEmpty then none else some spaces, false, c)

/-- The characters of a word of a plain text. -/
def plainWord (inFlow : Bool) : List Char → List Char
  | [] => []
  | ch :: rest =>
    let next := rest.headD endMark
    if isGapOrEnd ch then []
    else if ch = ':' && (isGapOrEnd next || (inFlow && ",[]\x7b\x7d".toList.contains next)) then []
    else if inFlow && ",?[]\x7b\x7d".toList.contains ch then []
    else ch :: plainWord inFlow rest

/-- Reads a plain text, and whether a line end was passed after its last word. -/
def readPlain (inFlow : Bool) (indent : Int) :
    Nat → List Char → Bool → Cursor → List Char × Bool × Cursor
  | 0, _, passed, c => ([], passed, c)
  | fuel + 1, gap, passed, c =>
    if c.peek = '#' then ([], passed, c)
    else
      let word := plainWord inFlow c.rest
      if word.isEmpty then ([], passed, c)
      else
        let (next, spans, c) := plainGap (c.move word.length)
        match next with
        | none => (gap ++ word, spans, c)
        | some next =>
          if c.peek = '#' || (!inFlow && (c.column : Int) < indent) then (gap ++ word, spans, c)
          else
            let (more, passed, c) := readPlain inFlow indent fuel next spans c
            (gap ++ word ++ more, passed, c)

end Conveyor.Yaml.FlowText
