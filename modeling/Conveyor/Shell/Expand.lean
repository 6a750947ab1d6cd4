import Conveyor.Shell.Arithmetic
import Conveyor.Shell.Machine
import Conveyor.Shell.Pattern

/-!
Expansion of words: parameters, commands and arithmetic become text, unquoted results are split into
fields, and fields with wildcards become the paths that they match.
-/

namespace Conveyor.Shell

/-- Where a character of an expanded word comes from. -/
inductive Origin
  | literal
  | expanded
  | quoted
  deriving DecidableEq, Repr

/-- A piece of an expanded word. Quotes make a field even of nothing. -/
inductive Item
  | glyph (c : Char) (origin : Origin)
  | quotes
  | fieldBreak
  deriving DecidableEq, Repr

/-- The origin of what a parameter, a command or arithmetic gives. -/
def Origin.ofResult (quoted : Bool) : Origin := if quoted then .quoted else .expanded

namespace Item

def ofText (s : String) (origin : Origin) : List Item := s.toList.map fun c => .glyph c origin

/-- The characters of items; a break between fields reads as a space. -/
def text (items : List Item) : String :=
  String.ofList (items.filterMap fun
    | .glyph c _ => some c
    | .fieldBreak => some ' '
    | .quotes => none)

/-- The characters of items as those of a pattern. -/
def marked (items : List Item) : List Marked :=
  items.filterMap fun
    | .glyph c origin => some (c, origin = .quoted)
    | .fieldBreak => some (' ', false)
    | .quotes => none

/-- Items that come from inside quotes. -/
def quote (items : List Item) : List Item :=
  items.map fun
    | .glyph c _ => .glyph c .quoted
    | i => i

/-- Items of a word inside a parameter, which are split like the values of parameters. -/
def loosen (items : List Item) : List Item :=
  items.map fun
    | .glyph c .literal => .glyph c .expanded
    | i => i

end Item

structure Field where
  /-- Its characters, the last first. -/
  glyphs : List Marked := []
  isOpen : Bool := false
  /-- A blank has ended the field before this one. -/
  afterBlank : Bool := false

def splitItem (separators : List Char) (done : List (List Marked)) (f : Field) :
    Item → List (List Marked) × Field
  | .quotes => (done, { f with isOpen := true, afterBlank := false })
  | .fieldBreak => (f.glyphs.reverse :: done, {})
  | .glyph c origin =>
    if origin = .expanded && separators.contains c then
      if c = ' ' || c = '\t' || c = '\n' then
        if f.isOpen then (f.glyphs.reverse :: done, { afterBlank := true }) else (done, f)
      else if f.afterBlank then (done, {})
      else (f.glyphs.reverse :: done, {})
    else (done, { glyphs := (c, origin = .quoted) :: f.glyphs, isOpen := true })

def splitItems (separators : List Char) (items : List Item) : List (List Marked) :=
  let (done, f) := items.foldl (fun (done, f) i => splitItem separators done f i) ([], {})
  (if f.isOpen then f.glyphs.reverse :: done else done).reverse

/-- Splits a pattern at separators of paths. -/
def splitPattern : List Marked → List (List Marked)
  | [] => [[]]
  | c :: rest =>
    match splitPattern rest with
    | [] => [[c]]
    | part :: parts => if c.1 = '/' then [] :: part :: parts else (c :: part) :: parts

def unmarked (cs : List Marked) : String := String.ofList (cs.map (·.1))

/-- The paths that components of a pattern match, seen from a directory. -/
def pathsMatching (t : FileTree) (directory : Location) (lead : String) :
    List (List Marked) → List String
  | [] => []
  | part :: rest =>
    let es := patternOf part
    let name := unmarked part
    let go (name : String) : List String :=
      if rest.isEmpty then [lead ++ name]
      else pathsMatching t (directory ++ [name]) (lead ++ name ++ "/") rest
    if !hasWildcard es then
      if rest.isEmpty && name ≠ "" && (t.followParent (directory ++ [name])).toOption.all
          (fun l => (t.entryAt? l).isNone) then []
      else go name
    else match t.follow directory with
      | .error _ => []
      | .ok place =>
        let fits (n : String) : Bool :=
          matchesText es n.toList && (!n.startsWith "." || name.startsWith ".")
        let dots := if name.startsWith "." then [".", ".."] else []
        ((dots ++ t.names place).filter fits).flatMap go

/-- What a field stands for: the paths that it matches if it has wildcards, or its own text. -/
def matchField (m : Machine) (field : List Marked) : List String :=
  if m.has 'f' || !hasWildcard (patternOf field) then [unmarked field]
  else
    let paths := match splitPattern field with
      | [] :: rest => pathsMatching m.files [] "/" rest
      | parts => pathsMatching m.files m.directory "" parts
    if paths.isEmpty then [unmarked field] else paths

namespace Flow

def parameterValue (name : String) : Flow (Option String) := do
  let m ← get
  match name with
  | "?" => return some (toString m.status)
  | "#" => return some (toString m.parameters.length)
  | "$" => return some (toString m.process)
  | "!" => return (m.jobs.getLast?).map fun (n, _) => toString n
  | "-" => return some (String.ofList m.options)
  | "0" => return some m.name
  | _ =>
    match name.toNat? with
    | some n => return m.parameters[n - 1]?
    | none => return m.value? name

def separators : Flow String := return ((← get).value? "IFS").getD " \t\n"

/-- All parameters as items: fields of their own, or one field where `joined`. -/
def allParameters (joined : Bool) (origin : Origin) : Flow (List Item) := do
  let values := (← get).parameters.map fun p => Item.ofText p origin
  let first := String.ofList ((← separators).toList.take 1)
  let between := if joined then Item.ofText first origin else [.fieldBreak]
  return (values.intersperse between).flatten

/-- The items of a parameter; nothing if it is not set. -/
def parameterItems (name : String) (quoted : Bool) : Flow (Option (List Item)) := do
  let origin := Origin.ofResult quoted
  if name = "@" || name = "*" then
    if (← get).parameters.isEmpty then return none
    return some (← allParameters (quoted && name = "*") origin)
  return (← parameterValue name).map fun s => Item.ofText s origin

def arithmetic (text : String) : Flow Int := do
  let m ← get
  match Arithmetic.evaluate m.value? text with
  | .ok (value, assigned) =>
    for (name, value) in assigned do setVariable name value
    return value
  | .error e => abort (e.text text)

end Flow

def dropLineFeeds (s : String) : String :=
  String.ofList ((s.toList.reverse.dropWhile (· = '\n')).reverse)

mutual

/-- Expands a part of a word; `run` gives the output of a script. -/
def expandPart (run : Scanner → Flow String) : Part → Flow (List Item)
  | .text s true => return .quotes :: Item.ofText s .quoted
  | .text s false => return Item.ofText s .literal
  | .command script _ line quoted => do
    let out ← run { rest := script.toList, line }
    return Item.ofText (dropLineFeeds out) (.ofResult quoted)
  | .arithmetic word quoted => do
    let items ← expandParts run word
    let value ← Flow.arithmetic (Item.text items)
    return Item.ofText (toString value) (.ofResult quoted)
  | .parameter name change whenEmpty word quoted => do
    let found ← Flow.parameterItems name quoted
    let items := found.getD []
    let isThere := found.any fun items => !(whenEmpty && items.isEmpty)
    match change with
    | .keep =>
      if found.isNone && (← get).has 'u' && name ≠ "@" && name ≠ "*" then
        Flow.abort (name ++ ": parameter not set")
      return items
    | .unknown => Flow.abort "Bad substitution"
    | .length =>
      return Item.ofText (toString (Item.text items).utf8ByteSize) (.ofResult quoted)
    | .useDefault =>
      if isThere then return items
      let other ← expandParts run word
      return if quoted then Item.quote other else Item.loosen other
    | .alternative =>
      if !isThere then return []
      let other ← expandParts run word
      return if quoted then Item.quote other else Item.loosen other
    | .assignDefault =>
      if isThere then return items
      let text := Item.text (← expandParts run word)
      Flow.setVariable name text
      return Item.ofText text (.ofResult quoted)
    | .demand =>
      if isThere then return items
      let text := Item.text (← expandParts run word)
      let standard := if whenEmpty then "parameter not set or null" else "parameter not set"
      Flow.abort (name ++ ": " ++ if text.isEmpty then standard else text)
    | .dropStart longest =>
      let es := patternOf (Item.marked (← expandParts run word))
      let cs := dropMatching es longest (Item.text items).toList
      return Item.ofText (String.ofList cs) (.ofResult quoted)
    | .dropEnd longest =>
      let es := patternOf (Item.marked (← expandParts run word))
      let cs := dropMatchingEnd es longest (Item.text items).toList
      return Item.ofText (String.ofList cs) (.ofResult quoted)

def expandParts (run : Scanner → Flow String) : List Part → Flow (List Item)
  | [] => return []
  | part :: rest => do
    let items ← expandPart run part
    return items ++ (← expandParts run rest)

end

/-- A tilde at the start of a word stands for the home directory. -/
def expandTilde : List Part → Flow (List Part)
  | .text s false :: rest => do
    match s.toList with
    | '~' :: more =>
      if (more.isEmpty && rest.isEmpty) || more.head? = some '/' then
        match (← get).value? "HOME" with
        | some home => return .text home true :: .text (String.ofList more) false :: rest
        | none => return .text s false :: rest
      else return .text s false :: rest
    | _ => return .text s false :: rest
  | parts => return parts

/-- A word that stands for all parameters and nothing else, where there are none. -/
def isNothing (w : Word) (items : List Item) : Bool :=
  items.all (· = .quotes) && w.any fun
    | .parameter "@" .keep _ _ true => true
    | _ => false

def expandWord (run : Scanner → Flow String) (w : Word) : Flow (List String) := do
  let items ← expandParts run (← expandTilde w)
  let m ← get
  if m.parameters.isEmpty && isNothing w items then return []
  return (splitItems (← Flow.separators).toList items).flatMap (matchField m)

def expandWords (run : Scanner → Flow String) (ws : List Word) : Flow (List String) :=
  return (← ws.mapM (expandWord run)).flatten

/-- The text of a word, which is neither split nor matched. -/
def expandText (run : Scanner → Flow String) (w : Word) : Flow String :=
  return Item.text (← expandParts run (← expandTilde w))

def expandPattern (run : Scanner → Flow String) (w : Word) : Flow (List Element) :=
  return patternOf (Item.marked (← expandParts run (← expandTilde w)))

end Conveyor.Shell
