import Conveyor.Text.Undecodable
import Conveyor.Yaml.BlockText
import Conveyor.Yaml.FlowText

/-!
Tokens of a YAML text. Block structure has no signs of its own: its tokens come from columns. A
mapping key is known only when its colon comes, so the places where a key may have started are kept,
one for each level of nesting in brackets, and its token is put in there afterwards.
-/

namespace Conveyor.Yaml

inductive Token
  | version (major : Nat)
  | handle (name expansion : String)
  | directive
  | documentStart
  | documentEnd
  | streamEnd
  | blockSequence
  | blockMapping
  | blockEnd
  | openSequence
  | closeSequence
  | openMapping
  | closeMapping
  | entry
  | comma
  | key
  | value
  | alias (name : String)
  | anchor (name : String)
  | tag (handle : Option String) (suffix : String)
  | scalar (text : String) (plain : Bool)
  deriving DecidableEq, Repr

def Token.shown : Token → String
  | .version _ | .handle _ _ | .directive => "'<directive>'"
  | .documentStart => "'<document start>'"
  | .documentEnd => "'<document end>'"
  | .streamEnd => "'<stream end>'"
  | .blockSequence => "'<block sequence start>'"
  | .blockMapping => "'<block mapping start>'"
  | .blockEnd => "'<block end>'"
  | .openSequence => "'['"
  | .closeSequence => "']'"
  | .openMapping => "'\x7b'"
  | .closeMapping => "'\x7d'"
  | .entry => "'-'"
  | .comma => "','"
  | .key => "'?'"
  | .value => "':'"
  | .alias _ => "'<alias>'"
  | .anchor _ => "'<anchor>'"
  | .tag _ _ => "'<tag>'"
  | .scalar _ _ => "'<scalar>'"

structure Placed where
  token : Token
  mark : Mark
  deriving Repr

/-- The tokens of a text up to its end, or up to a place that breaks the grammar. -/
structure Tokens where
  tokens : List Placed
  fault : Option Fault := none
  deriving Repr

/-- A place where a key may have started: its token's number, and the text position. -/
structure KeyPlace where
  number : Nat
  required : Bool
  mark : Mark
  deriving Repr

structure Scan where
  cursor : Cursor
  tokens : Array Placed := #[]
  indent : Int := -1
  indents : List Int := []
  depth : Nat := 0
  keyAllowed : Bool := true
  places : Table Nat KeyPlace := []
  /-- No token after the last one can be read. -/
  isOver : Bool := false

namespace Scan

def pushAt (s : Scan) (m : Mark) (t : Token) : Scan := { s with tokens := s.tokens.push ⟨t, m⟩ }

def push (s : Scan) (t : Token) : Scan := s.pushAt s.cursor.mark t

def move (s : Scan) (n : Nat) : Scan := { s with cursor := s.cursor.move n }

/-- The colon of a key that must be one has not come. -/
def missedKey {α : Type} (s : Scan) (k : KeyPlace) : Except Fault α :=
  s.cursor.complain "while scanning a simple key" k.mark "could not find expected ':'"

/-- A place is out of date on another line or too far back; one that must be a key is missed. -/
def dropStale (s : Scan) : Except Fault Scan := do
  let stale (k : KeyPlace) : Bool :=
    k.mark.line != s.cursor.line || 1024 < s.cursor.index - k.mark.index
  match s.places.find? fun e => stale e.2 && e.2.required with
  | some (_, k) => s.missedKey k
  | none => pure ()
  return { s with places := s.places.filter fun e => !stale e.2 }

/-- Gives up the place of the current level. -/
def dropPlace (s : Scan) : Except Fault Scan :=
  match s.places.get? s.depth with
  | some k =>
    if k.required then s.missedKey k else .ok { s with places := s.places.erase s.depth }
  | none => .ok s

/-- Notes that a key may start here. -/
def savePlace (s : Scan) : Except Fault Scan :=
  if s.keyAllowed then do
    let s ← s.dropPlace
    let required := s.depth = 0 && s.indent = s.cursor.column
    let place : KeyPlace := ⟨s.tokens.size, required, s.cursor.mark⟩
    return { s with places := s.places.put s.depth place }
  else .ok s

/-- Closes the blocks that are indented deeper than a column. -/
def closeBlocks (column : Int) : List Int → Scan → Scan
  | [], s => s
  | outer :: rest, s =>
    if column < s.indent then
      closeBlocks column rest ({ s with indent := outer, indents := rest }.push .blockEnd)
    else s

def unwind (s : Scan) (column : Int) : Scan :=
  if s.depth = 0 then closeBlocks column s.indents s else s

/-- Opens a block at a place, unless one is open in its column; its token gets the given number. -/
def openBlock (s : Scan) (m : Mark) (number : Nat) (t : Token) : Scan :=
  if s.indent < m.column then
    { s with
      indents := s.indent :: s.indents
      indent := m.column
      tokens := s.tokens.insertIdxIfInBounds number ⟨t, m⟩ }
  else s

def openBlockHere (s : Scan) (t : Token) : Scan := s.openBlock s.cursor.mark s.tokens.size t

/-- Skips spaces, comments and line ends up to the next token. -/
def toToken : Nat → Scan → Scan
  | 0, s => s
  | fuel + 1, s =>
    let c := s.cursor.skipSpaces.skipComment
    if isBreak c.peek then
      toToken fuel { s with
        cursor := c.takeBreak.2
        keyAllowed := s.keyAllowed || s.depth = 0 }
    else { s with cursor := c }

/-- A byte order mark may stand at the very start. -/
def skipMark (s : Scan) : Scan :=
  if s.cursor.index = 0 && s.cursor.peek = '\ufeff' then s.move 1 else s

/-- A token that only a line of its own can hold. -/
def documentToken (s : Scan) (n : Nat) (t : Token) : Except Fault Scan := do
  let s ← (s.unwind (-1)).dropPlace
  return ({ s with keyAllowed := false }.push t).move n

/-! Directives. -/

/-- What a directive is read in, as messages name it. -/
def directiveContext : String := "while scanning a directive"

def readNumber (start : Mark) (c : Cursor) : Except Fault (Nat × Cursor) :=
  let (ds, c) := c.run Char.isDigit
  if ds.isEmpty then
    c.complain directiveContext start ("expected a digit, but found " ++ c.shown)
  else .ok (ds.foldl (fun n d => n * 10 + (d.toNat - 0x30)) 0, c)

def isUriChar (c : Char) : Bool := isWordChar c || ";/?:@&=+$,.!~*\x27()[]".toList.contains c

/-- A run of bytes written as percent signs with two digits each. -/
def readUriBytes (name : String) (start : Mark) : Nat → Cursor → Except Fault (Bytes × Cursor)
  | 0, c => .ok ([], c)
  | fuel + 1, c =>
    if c.peek = '%' then
      let c := c.step
      match FlowText.hexNumber? 2 c.rest with
      | some n => do
        let (more, c) ← readUriBytes name start fuel (c.move 2)
        return (n.toUInt8 :: more, c)
      | none =>
        let digits := ((c.rest.take 2).takeWhile fun d => (Text.hexValue? d).isSome).length
        c.complain ("while scanning a " ++ name) start
          ("expected URI escape sequence of 2 hexadecimal numbers, but found " ++
            shownChar (c.ahead digits))
    else .ok ([], c)

/-- No address where there must be one. -/
def missingUri {α : Type} (name : String) (start : Mark) (c : Cursor) : Except Fault α :=
  c.complain ("while parsing a " ++ name) start ("expected URI, but found " ++ c.shown)

/-- The parts of an address; `isFirst` tells that nothing of it was read. -/
def readUriParts (name : String) (start : Mark) (isFirst : Bool) :
    Nat → Cursor → Except Fault (List Char × Cursor)
  | 0, c => missingUri name start c
  | fuel + 1, c =>
    let (plain, c) := c.run isUriChar
    if c.peek = '%' then do
      let (bytes, after) ← readUriBytes name start (c.rest.length + 1) c
      match Text.decode bytes with
      | .ok text =>
        let (more, c) ← readUriParts name start false fuel after
        return (plain ++ text.toList ++ more, c)
      | .error flaw => c.complain ("while scanning a " ++ name) start flaw
    else if isFirst && plain.isEmpty then missingUri name start c
    else .ok (plain, c)

def readUri (name : String) (start : Mark) (c : Cursor) : Except Fault (List Char × Cursor) :=
  readUriParts name start true (c.rest.length + 1) c

def readHandle (name : String) (start : Mark) (c : Cursor) :
    Except Fault (List Char × Cursor) :=
  let missing (c : Cursor) : Except Fault (List Char × Cursor) :=
    c.complain ("while scanning a " ++ name) start ("expected '!', but found " ++ c.shown)
  if c.peek = '!' then
    let c := c.step
    if c.peek = ' ' then .ok (['!'], c)
    else
      let (word, c) := c.run isWordChar
      if c.peek = '!' then .ok ('!' :: word ++ ['!'], c.step) else missing c
  else missing c

def readDirective (c : Cursor) : Except Fault (Token × Cursor) := do
  let start := c.mark
  let need (c : Cursor) (holds : Bool) (what : String) : Except Fault Unit :=
    if holds then .ok ()
    else c.complain directiveContext start ("expected " ++ what ++ ", but found " ++ c.shown)
  let (name, c) := c.step.run isWordChar
  need c (!name.isEmpty && isSpaceOrEnd c.peek) "alphabetic or numeric character"
  let (t, c) ←
    if name = "YAML".toList then do
      let (major, c) ← readNumber start c.skipSpaces
      need c (c.peek = '.') "a digit or '.'"
      let (_, c) ← readNumber start c.step
      need c (isSpaceOrEnd c.peek) "a digit or ' '"
      pure (Token.version major, c)
    else if name = "TAG".toList then do
      let (handle, c) ← readHandle "directive" start c.skipSpaces
      need c (c.peek = ' ') "' '"
      let (expansion, c) ← readUri "directive" start c.skipSpaces
      need c (isSpaceOrEnd c.peek) "' '"
      pure (Token.handle (String.ofList handle) (String.ofList expansion), c)
    else pure (Token.directive, c.skip (!isBreak ·))
  return (t, ← readLineEnd directiveContext start c)

/-! Tokens of a line. -/

def readName (kind : String) (start : Mark) (c : Cursor) : Except Fault (String × Cursor) :=
  let (name, c) := c.run isWordChar
  if name.isEmpty || !(isGapOrEnd c.peek || "?:,]\x7d%@\x60".toList.contains c.peek) then
    c.complain ("while scanning an " ++ kind) start
      ("expected alphabetic or numeric character, but found " ++ c.shown)
  else .ok (String.ofList name, c)

/-- A word before the next gap holds a second exclamation mark. -/
def hasHandle (c : Cursor) : Bool :=
  (c.rest.drop 1).takeWhile (fun ch => !isSpaceOrEnd ch) |>.contains '!'

def readTag (c : Cursor) : Except Fault (Token × Cursor) := do
  let start := c.mark
  let next := c.ahead 1
  let (t, c) ←
    if next = '<' then do
      let (suffix, c) ← readUri "tag" start (c.move 2)
      if c.peek != '>' then
        c.complain "while parsing a tag" start ("expected '>', but found " ++ c.shown)
      pure (Token.tag none (String.ofList suffix), c.step)
    else if isGapOrEnd next then pure (Token.tag none "!", c.step)
    else do
      let (handle, c) ← if hasHandle c then readHandle "tag" start c else pure (['!'], c.step)
      let (suffix, c) ← readUri "tag" start c
      pure (Token.tag (some (String.ofList handle)) (String.ofList suffix), c)
  if isSpaceOrEnd c.peek then return (t, c)
  else c.complain "while scanning a tag" start ("expected ' ', but found " ++ c.shown)

/-- A token that a key may start with. -/
def keyToken (s : Scan) (read : Cursor → Except Fault (Token × Cursor)) : Except Fault Scan := do
  let s ← s.savePlace
  let (t, c) ← read s.cursor
  return { s.push t with cursor := c, keyAllowed := false }

def openBrackets (s : Scan) (t : Token) : Except Fault Scan := do
  let s ← s.savePlace
  return ({ s with depth := s.depth + 1, keyAllowed := true }.push t).move 1

/-- Closes brackets. Where none are open, no reader gets beyond the token. -/
def closeBrackets (s : Scan) (t : Token) : Except Fault Scan := do
  let s ← s.dropPlace
  return ({ s with depth := s.depth - 1, keyAllowed := false, isOver := s.depth = 0 }.push t).move 1

/-- Something stands where it may not. -/
def misplaced (s : Scan) (what : String) : Except Fault Unit :=
  if s.depth = 0 && !s.keyAllowed then
    .error (.grammar (.problem none (what ++ " are not allowed here") s.cursor.mark))
  else .ok ()

def commaToken (s : Scan) : Except Fault Scan := do
  let s ← { s with keyAllowed := true }.dropPlace
  return (s.push .comma).move 1

def entryToken (s : Scan) : Except Fault Scan := do
  s.misplaced "sequence entries"
  let s := if s.depth = 0 then s.openBlockHere .blockSequence else s
  let s ← { s with keyAllowed := true }.dropPlace
  return (s.push .entry).move 1

/-- A key with a sign of its own. -/
def explicitKey (s : Scan) : Except Fault Scan := do
  s.misplaced "mapping keys"
  let s := if s.depth = 0 then s.openBlockHere .blockMapping else s
  let s ← { s with keyAllowed := s.depth = 0 }.dropPlace
  return (s.push .key).move 1

/-- A value. If a key may have started at the place of this level, it has. -/
def valueToken (s : Scan) : Except Fault Scan := do
  match s.places.get? s.depth with
  | some k =>
    let s := { s with
      places := s.places.erase s.depth
      tokens := s.tokens.insertIdxIfInBounds k.number ⟨.key, k.mark⟩
      keyAllowed := false }
    let s := if s.depth = 0 then s.openBlock k.mark k.number .blockMapping else s
    return (s.push .value).move 1
  | none =>
    s.misplaced "mapping values"
    let s := if s.depth = 0 then s.openBlockHere .blockMapping else s
    let s ← { s with keyAllowed := s.depth = 0 }.dropPlace
    return (s.push .value).move 1

def blockText (s : Scan) (folded : Bool) : Except Fault Scan := do
  let s ← { s with keyAllowed := true }.dropPlace
  let (text, c) ← BlockText.read folded s.indent s.cursor.mark s.cursor.step
  return { s.push (.scalar (String.ofList text) false) with cursor := c }

def quotedText (s : Scan) (double : Bool) : Except Fault Scan :=
  s.keyToken fun c => do
    let (text, c) ← FlowText.readQuoted double c.mark (c.rest.length + 1) c.step
    return (.scalar (String.ofList text) false, c)

def plainText (s : Scan) : Except Fault Scan := do
  let s ← s.savePlace
  let (text, passed, c) :=
    FlowText.readPlain (s.depth != 0) (s.indent + 1) (s.cursor.rest.length + 1) [] false s.cursor
  return { s.push (.scalar (String.ofList text) true) with cursor := c, keyAllowed := passed }

/-- A plain text may start here. -/
def startsPlain (s : Scan) : Bool :=
  let ch := s.cursor.peek
  !(isGapOrEnd ch || "-?:,[]\x7b\x7d#&*!|>\x27\x22%@\x60".toList.contains ch) ||
    (!isGapOrEnd (s.cursor.ahead 1) && (ch = '-' || (s.depth = 0 && (ch = '?' || ch = ':'))))

def token (s : Scan) : Except Fault Scan :=
  let c := s.cursor
  let ch := c.peek
  let gapAfter := isGapOrEnd (c.ahead 1)
  if ch = '%' && c.column = 0 then do
    let s ← (s.unwind (-1)).dropPlace
    let (t, c) ← readDirective s.cursor
    return { s.push t with cursor := c, keyAllowed := false }
  else if c.column = 0 && c.atMarker '-' then s.documentToken 3 .documentStart
  else if c.column = 0 && c.atMarker '.' then s.documentToken 3 .documentEnd
  else if ch = '[' then s.openBrackets .openSequence
  else if ch = '\x7b' then s.openBrackets .openMapping
  else if ch = ']' then s.closeBrackets .closeSequence
  else if ch = '\x7d' then s.closeBrackets .closeMapping
  else if ch = ',' then s.commaToken
  else if ch = '-' && gapAfter then s.entryToken
  else if ch = '?' && (s.depth != 0 || gapAfter) then s.explicitKey
  else if ch = ':' && (s.depth != 0 || gapAfter) then s.valueToken
  else if ch = '*' then s.keyToken fun c => do
    let (name, c) ← readName "alias" c.mark c.step
    return (.alias name, c)
  else if ch = '&' then s.keyToken fun c => do
    let (name, c) ← readName "anchor" c.mark c.step
    return (.anchor name, c)
  else if ch = '!' then s.keyToken readTag
  else if ch = '|' && s.depth = 0 then s.blockText false
  else if ch = '>' && s.depth = 0 then s.blockText true
  else if ch = '\x27' then s.quotedText false
  else if ch = '\x22' then s.quotedText true
  else if s.startsPlain then s.plainText
  else .error (.grammar (.problem (some ⟨"while scanning for the next token", none⟩)
    ("found character " ++ shownChar ch ++ " that cannot start any token") c.mark))

def advance (s : Scan) : Except Fault Scan := do
  let s ← (toToken (s.cursor.rest.length + 1) s).dropStale
  let s := s.unwind s.cursor.column
  if s.cursor.peek = endMark then
    let s ← s.documentToken 0 .streamEnd
    return { s with isOver := true }
  else (← s.token).dropStale

/-- The tokens that can be told for sure: those before every place where a key may have started. -/
def settled (s : Scan) : List Placed :=
  s.tokens.toList.take ((s.places.map fun e => e.2.number).foldl min s.tokens.size)

/-- Reads tokens up to the end of the text, or to a place that breaks the grammar. -/
def toEnd : Nat → Scan → Tokens
  | 0, s => { tokens := s.tokens.toList }
  | fuel + 1, s =>
    match s.advance with
    | .ok s => if s.isOver then { tokens := s.tokens.toList } else toEnd fuel s
    | .error f => { tokens := s.settled, fault := some f }

end Scan

def Tokens.ofText (text : String) : Tokens :=
  let cs := text.toList
  match cs.zipIdx.find? fun (c, _) => !isAllowed c with
  | some (c, i) => { tokens := [], fault := some (.grammar (.character c i)) }
  | none => (Scan.skipMark { cursor := { rest := cs } }).toEnd (cs.length + 2)

end Conveyor.Yaml
