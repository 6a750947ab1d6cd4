import Conveyor.Yaml.Tag
import Conveyor.Yaml.Token

/-!
Nodes of a YAML document, built from its tokens. An alias stands for the node of its anchor; inside
the very node that it names it is a loop. A node knows where it starts, for messages.
-/

namespace Conveyor.Yaml

open Conveyor.Text

inductive Node
  | scalar (mark : Mark) (tag : Tag) (text : String)
  | sequence (mark : Mark) (tag : Tag) (items : List Node)
  | mapping (mark : Mark) (tag : Tag) (entries : List (Node × Node))
  | loop (mark : Mark) (isMapping : Bool)
  deriving Repr

namespace Node

def mark : Node → Mark
  | .scalar m _ _ | .sequence m _ _ | .mapping m _ _ | .loop m _ => m

def tag : Node → Tag
  | .scalar _ t _ | .sequence _ t _ | .mapping _ t _ => t
  | .loop _ isMapping => if isMapping then .map else .seq

def form : Node → String
  | .scalar _ _ _ => "scalar"
  | .sequence _ _ _ => "sequence"
  | .mapping _ _ _ => "mapping"
  | .loop _ isMapping => if isMapping then "mapping" else "sequence"

end Node

/-- What a name that is anchored stands for so far. -/
inductive Anchored
  | whole (n : Node)
  | open (mark : Mark) (isMapping : Bool)

def Anchored.mark : Anchored → Mark
  | .whole n => n.mark
  | .open m _ => m

/-- Tokens under reading, and what is wrong after them. -/
structure Reading where
  tokens : List Placed
  fault : Option Fault := none
  anchors : Table String Anchored := []
  handles : Table String String := []

def complainAt {α : Type} (m : Mark) (what : String) : Except Fault α :=
  .error (.grammar (.problem none what m))

def complainIn {α : Type} (context : String) (start : Mark) (what : String) (m : Mark) :
    Except Fault α :=
  .error (.grammar (.problem (some ⟨context, some start⟩) what m))

/-- The answer where a bound on the nesting is reached. -/
def tooDeep {α : Type} : Except Fault α := complainAt {} "the nesting is too deep"

namespace Reading

def peek (r : Reading) : Except Fault Placed :=
  match r.tokens, r.fault with
  | t :: _, _ => .ok t
  | [], some f => .error f
  | [], none => .ok ⟨.streamEnd, {}⟩

def next (r : Reading) : Reading := { r with tokens := r.tokens.drop 1 }

def tagName (r : Reading) (start m : Mark) : Option String → String → Except Fault String
  | none, suffix => .ok suffix
  | some handle, suffix =>
    match r.handles.get? handle with
    | some expansion => .ok (expansion ++ suffix)
    | none =>
      complainIn "while parsing a node" start ("found undefined tag handle " ++ quoted handle) m

def properties (r : Reading) : Except Fault ((Option String × Option String) × Reading) := do
  let first ← r.peek
  match first.token with
  | .anchor a =>
    let second ← r.next.peek
    match second.token with
    | .tag h s => return ((some a, some (← r.tagName first.mark second.mark h s)), r.next.next)
    | _ => return ((some a, none), r.next)
  | .tag h s =>
    let second ← r.next.peek
    let name ← r.tagName first.mark first.mark h s
    match second.token with
    | .anchor a => return ((some a, some name), r.next.next)
    | _ => return ((none, some name), r.next)
  | _ => return ((none, none), r)

/-- A tag other than the one that says nothing. -/
def meaning? (tag : Option String) : Option Tag := (tag.filter (· != "!")).map Tag.ofName

/-- The tag of a scalar: the given one, or else that of its form where it is plain. -/
def scalarTag (tag : Option String) (text : String) (plain : Bool) : Tag :=
  (meaning? tag).getD (if plain || tag = some "!" then Tag.ofPlain text else .str)

def bind (r : Reading) (anchor : Option String) (a : Anchored) : Except Fault Reading :=
  match anchor with
  | none => .ok r
  | some name =>
    match r.anchors.get? name with
    | some first =>
      complainIn ("found duplicate anchor " ++ quoted name ++ "; first occurrence") first.mark
        "second occurrence" a.mark
    | none => .ok { r with anchors := r.anchors.put name a }

/-- Puts the finished node under its anchor. -/
def close (r : Reading) (anchor : Option String) (n : Node) : Reading :=
  match anchor with
  | none => r
  | some name => { r with anchors := r.anchors.put name (.whole n) }

def empty (m : Mark) : Node := .scalar m .null ""

/-- Where a node stands: inside brackets, in a block, or as a value of a block mapping, where a
sequence needs no indentation of its own. -/
inductive Place
  | flow
  | block
  | blockValue
  deriving DecidableEq

/-- What a node is read as, as messages name it. -/
def Place.context (p : Place) : String :=
  if p = .flow then "while parsing a flow node" else "while parsing a block node"

/-- A block that starts at a place goes on with something else than its next part or its end. -/
def unended {α : Type} (what : String) (start : Mark) (t : Placed) : Except Fault α :=
  complainIn ("while parsing a block " ++ what) start
    ("expected <block end>, but found " ++ t.token.shown) t.mark

/-- A comma between the parts in brackets, which comes before each part but the first. -/
def separator (what : String) (closing : Token) (start : Mark) (first : Bool) (r : Reading) :
    Except Fault Reading := do
  if first then return r
  let t ← r.peek
  if t.token = .comma then return r.next
  complainIn ("while parsing a flow " ++ what) start
    ("expected ',' or " ++ closing.shown ++ ", but got " ++ t.token.shown) t.mark

mutual

def node : Nat → Place → Reading → Except Fault (Node × Reading)
  | 0, _, _ => tooDeep
  | fuel + 1, place, r => do
    let first ← r.peek
    let start := first.mark
    match first.token with
    | .alias name =>
      match r.anchors.get? name with
      | some (.whole n) => return (n, r.next)
      | some (.open m isMapping) => return (.loop m isMapping, r.next)
      | none => complainAt start ("found undefined alias " ++ quoted name)
    | _ =>
    let ((anchor, tag), r) ← r.properties
    let t ← r.peek
    let scalar (text : String) (plain : Bool) (r : Reading) : Except Fault (Node × Reading) := do
      let n := Node.scalar start (scalarTag tag text plain) text
      return (n, ← r.bind anchor (.whole n))
    let sequence (read : Reading → Except Fault (List Node × Reading)) (r : Reading) :
        Except Fault (Node × Reading) := do
      let (items, r) ← read (← r.bind anchor (.open start false))
      let n := Node.sequence start ((meaning? tag).getD .seq) items
      return (n, r.close anchor n)
    let mapping (read : Reading → Except Fault (List (Node × Node) × Reading)) (r : Reading) :
        Except Fault (Node × Reading) := do
      let (entries, r) ← read (← r.bind anchor (.open start true))
      let n := Node.mapping start ((meaning? tag).getD .map) entries
      return (n, r.close anchor n)
    let isBlock := place != .flow
    match t.token with
    | .scalar text plain => scalar text plain r.next
    | .openSequence => sequence (flowItems fuel t.mark true) r.next
    | .openMapping => mapping (flowEntries fuel t.mark true) r.next
    | other =>
      if other = .blockSequence && isBlock then sequence (blockItems fuel t.mark) r.next
      else if other = .blockMapping && isBlock then mapping (blockEntries fuel t.mark) r.next
      else if other = .entry && place = .blockValue then sequence (looseItems fuel) r
      else if anchor.isSome || tag.isSome then scalar "" tag.isNone r
      else
        complainIn place.context start ("expected the node content, but found " ++ other.shown)
          t.mark

/-- A node, or nothing where one of these tokens follows. -/
def nodeUnless : Nat → Place → List Token → Mark → Reading → Except Fault (Node × Reading)
  | 0, _, _, _, _ => tooDeep
  | fuel + 1, place, stops, m, r => do
    if stops.contains (← r.peek).token then return (empty m, r) else node fuel place r

/-- The items of a block sequence, up to the end of the block. -/
def blockItems : Nat → Mark → Reading → Except Fault (List Node × Reading)
  | 0, _, _ => tooDeep
  | fuel + 1, start, r => do
    let t ← r.peek
    if t.token = .entry then
      let (n, r) ← nodeUnless fuel .block [.entry, .blockEnd] t.mark.after r.next
      let (more, r) ← blockItems fuel start r
      return (n :: more, r)
    else if t.token = .blockEnd then return ([], r.next)
    else unended "collection" start t

/-- The items of a sequence that is no block of its own. -/
def looseItems : Nat → Reading → Except Fault (List Node × Reading)
  | 0, _ => tooDeep
  | fuel + 1, r => do
    let t ← r.peek
    if t.token = .entry then
      let (n, r) ← nodeUnless fuel .block [.entry, .key, .value, .blockEnd] t.mark.after r.next
      let (more, r) ← looseItems fuel r
      return (n :: more, r)
    else return ([], r)

/-- The entries of a block mapping, up to the end of the block. -/
def blockEntries : Nat → Mark → Reading → Except Fault (List (Node × Node) × Reading)
  | 0, _, _ => tooDeep
  | fuel + 1, start, r => do
    let stops : List Token := [.key, .value, .blockEnd]
    let t ← r.peek
    if t.token = .key then
      let (k, r) ← nodeUnless fuel .blockValue stops t.mark.after r.next
      let t ← r.peek
      let (v, r) ←
        if t.token = .value then nodeUnless fuel .blockValue stops t.mark.after r.next
        else .ok (empty t.mark, r)
      let (more, r) ← blockEntries fuel start r
      return ((k, v) :: more, r)
    else if t.token = .blockEnd then return ([], r.next)
    else unended "mapping" start t

/-- An entry in brackets after the sign of its key; key and value may be missing. -/
def flowPair : Nat → Token → Mark → Reading → Except Fault ((Node × Node) × Reading)
  | 0, _, _, _ => tooDeep
  | fuel + 1, closing, m, r => do
    let (k, r) ← nodeUnless fuel .flow [.value, .comma, closing] m r
    let t ← r.peek
    let (v, r) ←
      if t.token = .value then nodeUnless fuel .flow [.comma, closing] t.mark.after r.next
      else .ok (empty t.mark, r)
    return ((k, v), r)

/-- The items of a sequence in brackets; an item with a key is a mapping of one entry. -/
def flowItems : Nat → Mark → Bool → Reading → Except Fault (List Node × Reading)
  | 0, _, _, _ => tooDeep
  | fuel + 1, start, first, r => do
    if (← r.peek).token = .closeSequence then return ([], r.next)
    let r ← separator "sequence" .closeSequence start first r
    let t ← r.peek
    if t.token = .closeSequence then return ([], r.next)
    let (n, r) ←
      if t.token = .key then do
        let (entry, r) ← flowPair fuel .closeSequence t.mark.after r.next
        pure (Node.mapping t.mark .map [entry], r)
      else node fuel .flow r
    let (more, r) ← flowItems fuel start false r
    return (n :: more, r)

/-- The entries of a mapping in brackets; a key may stand alone. -/
def flowEntries : Nat → Mark → Bool → Reading → Except Fault (List (Node × Node) × Reading)
  | 0, _, _, _ => tooDeep
  | fuel + 1, start, first, r => do
    if (← r.peek).token = .closeMapping then return ([], r.next)
    let r ← separator "mapping" .closeMapping start first r
    let t ← r.peek
    if t.token = .closeMapping then return ([], r.next)
    let (entry, r) ←
      if t.token = .key then flowPair fuel .closeMapping t.mark.after r.next
      else do
        let (k, r) ← node fuel .flow r
        pure ((k, empty (← r.peek).mark), r)
    let (more, r) ← flowEntries fuel start false r
    return (entry :: more, r)

end

/-- The handles that need no directive. -/
def standardHandles : Table String String := [("!", "!"), ("!!", Tag.standard)]

/-- The directives before a document, each of its kind at most once. -/
def directives : Nat → Bool → Reading → Except Fault Reading
  | 0, _, _ => tooDeep
  | fuel + 1, versioned, r => do
    let t ← r.peek
    match t.token with
    | .version major =>
      if versioned then complainAt t.mark "found duplicate YAML directive"
      else if major != 1 then
        complainAt t.mark "found incompatible YAML document (version 1.* is required)"
      else directives fuel true r.next
    | .handle name expansion =>
      if r.handles.has name then complainAt t.mark ("duplicate tag handle " ++ quoted name)
      else directives fuel versioned { r.next with handles := r.handles.put name expansion }
    | .directive => directives fuel versioned r.next
    | _ => return { r with handles := Table.putAll standardHandles r.handles }

/-- A token before or at the start of a document that is marked as such. -/
def isHeading : Token → Bool
  | .version _ | .handle _ _ | .directive | .documentStart => true
  | _ => false

def heading (fuel : Nat) (r : Reading) : Except Fault Reading := do
  let r ← directives fuel false { r with handles := [] }
  let t ← r.peek
  if t.token = .documentStart then return r.next
  else complainAt t.mark ("expected '<document start>', but found " ++ t.token.shown)

/-- Skips the markers that end a document. -/
def skipEnds : List Placed → List Placed
  | [] => []
  | t :: rest => if t.token = .documentEnd then skipEnds rest else t :: rest

/-- Nothing may follow the document. -/
def finish (fuel : Nat) (n : Node) (r : Reading) : Except Fault (Option Node) := do
  let r := { r with tokens := skipEnds r.tokens }
  let t ← r.peek
  if t.token = .streamEnd then return some n
  let _ ← heading fuel r
  complainIn "expected a single document in the stream" n.mark "but found another document" t.mark

def document (tokens : Tokens) : Except Fault (Option Node) := do
  let fuel := 4 * tokens.tokens.length + 8
  let r : Reading := { tokens := tokens.tokens, fault := tokens.fault }
  let t ← r.peek
  if t.token = .streamEnd then return none
  if isHeading t.token then
    let r ← heading fuel r
    let t ← r.peek
    if isHeading t.token || t.token = .documentEnd || t.token = .streamEnd then
      finish fuel (empty t.mark) r
    else
      let (n, r) ← node fuel .block r
      finish fuel n r
  else
    let (n, r) ← node fuel .block { r with handles := standardHandles }
    finish fuel n r

end Reading

/-- The node of a text, if it holds a document. -/
def Node.ofText (text : String) : Except Fault (Option Node) :=
  Reading.document (Tokens.ofText text)

end Conveyor.Yaml
