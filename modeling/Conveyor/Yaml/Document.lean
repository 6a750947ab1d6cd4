import Conveyor.Yaml.ScalarValue

/-!
From nodes to values. Merge keys put the entries of other mappings before a mapping's own; values are
built level by level, so of several faults the one nearest to the root is met first.
-/

namespace Conveyor.Yaml

/-- A fault and the level at which it is met. -/
structure Misfit where
  level : Nat
  fault : Fault
  deriving DecidableEq, Repr

def atLevel {α : Type} (level : Nat) : Except Fault α → Except Misfit α
  | .ok a => .ok a
  | .error f => .error ⟨level, f⟩

/-- All parts, or the first fault of the level nearest to the root. -/
def gather {α : Type} : List (Except Misfit α) → Except Misfit (List α)
  | [] => .ok []
  | .ok a :: rest => (gather rest).map (a :: ·)
  | .error e :: rest =>
    match gather rest with
    | .error e' => .error (if e'.level < e.level then e' else e)
    | .ok _ => .error e

namespace Node

mutual

/-- A bound for the nesting of a node. -/
def height : Node → Nat
  | .sequence _ _ items => heightOfItems items + 1
  | .mapping _ _ entries => heightOfEntries entries + 1
  | _ => 1

def heightOfItems : List Node → Nat
  | [] => 0
  | n :: rest => max (height n) (heightOfItems rest)

def heightOfEntries : List (Node × Node) → Nat
  | [] => 0
  | (k, v) :: rest => max (max (height k) (height v)) (heightOfEntries rest)

end

/-- As a key, the sign for a default value is a text. -/
def asKey : Node → Node
  | .scalar m .value text => .scalar m .str text
  | n => n

/-- What a mapping is built for, as messages name it. -/
def mappingContext : String := "while constructing a mapping"

/-- What is no mapping is refused where it is merged into the mapping that starts at a place; the
mapping itself brings nothing new. -/
def mergedOther (start : Mark) (wanted : String) (n : Node) :
    Except Fault (List (Node × Node)) :=
  match n with
  | .loop m true =>
    if m = start then .ok [] else complainIn mappingContext start "found a recursive merge" m
  | n => complainIn mappingContext start
    ("expected " ++ wanted ++ " for merging, but found " ++ n.form) n.mark

mutual

/-- What a merge key brings into the mapping that starts at a place: the entries of a mapping, or of
several where the first wins. -/
def mergedEntries (start : Mark) : Node → Except Fault (List (Node × Node))
  | .mapping m _ entries => (splitEntries m entries).map fun (merged, own) => merged ++ own
  | .sequence _ _ items => mergedItems start items
  | n => mergedOther start "a mapping or list of mappings" n

def mergedItems (start : Mark) : List Node → Except Fault (List (Node × Node))
  | [] => .ok []
  | .mapping m _ entries :: rest => do
    let (merged, own) ← splitEntries m entries
    return (← mergedItems start rest) ++ (merged ++ own)
  | n :: rest => do
    let more ← mergedOther start "a mapping" n
    return (← mergedItems start rest) ++ more

/-- The entries that merge keys bring into the mapping that starts at a place, and its own. -/
def splitEntries (start : Mark) :
    List (Node × Node) → Except Fault (List (Node × Node) × List (Node × Node))
  | [] => .ok ([], [])
  | (k, v) :: rest => do
    if k.tag = .merge then
      let more ← mergedEntries start v
      let (merged, own) ← splitEntries start rest
      return (more ++ merged, own)
    else
      let (merged, own) ← splitEntries start rest
      return (merged, (k.asKey, v) :: own)

end

/-- A node of another form than its tag asks for. -/
def misformed {α : Type} (wanted : String) (n : Node) : Except Fault α :=
  complainAt n.mark ("expected a " ++ wanted ++ " node, but found " ++ n.form)

/-- The text of a node: of a mapping it is that of its default value. -/
def text : Nat → Node → Except Fault String
  | 0, n => misformed "scalar" n
  | fuel + 1, n =>
    match n with
    | .scalar _ _ text => .ok text
    | .mapping _ _ entries =>
      match entries.find? fun e => e.1.tag = .value with
      | some (_, v) => text fuel v
      | none => misformed "scalar" n
    | _ => misformed "scalar" n

def isCollection : Tag → Bool
  | .seq | .map | .set | .orderedMap | .pairs => true
  | _ => false

/-- The value of a node whose text counts. Under a tag without values no text is looked for. -/
def scalarValue (n : Node) : Except Fault Scalar := do
  let text ← if n.tag.hasValues then n.text n.height else pure ""
  ScalarValue.ofText n.mark n.tag text

/-- The entries of a mapping after its merge keys are resolved. -/
def entriesOf (n : Node) : Except Fault (List (Node × Node)) :=
  match n with
  | .mapping m _ entries => (splitEntries m entries).map fun (merged, own) => merged ++ own
  | n => misformed "mapping" n

def itemsOf (n : Node) : Except Fault (List Node) :=
  match n with
  | .sequence _ _ items => .ok items
  | n => misformed "sequence" n

/-- The items of a sequence of pairs, of which each is a mapping of one entry. -/
def pairsOf (what : String) (n : Node) : Except Fault (List (Except Fault (Node × Node))) :=
  let complain {α : Type} (wanted found : String) (at_ : Node) : Except Fault α :=
    complainIn ("while constructing " ++ what) n.mark
      ("expected a " ++ wanted ++ ", but found " ++ found) at_.mark
  match n with
  | .sequence _ _ items => .ok (items.map fun item =>
    match item with
    | .mapping _ _ [entry] => .ok entry
    | .mapping _ _ entries =>
      complain "single mapping item" (toString entries.length ++ " items") item
    | _ => complain "mapping of length 1" item.form item)
  | n => complain "sequence" n.form n

/-- A key that is a collection itself. -/
def unfitKey {α : Type} (start : Mark) (k : Node) : Except Fault α :=
  complainIn mappingContext start "found unhashable key" k.mark

/-- The value of a node. The first number bounds the nesting; `level` is the level of the collection
that the node is part of. -/
def valueAt : Nat → Nat → Node → Except Misfit Value
  | 0, level, _ => atLevel level tooDeep
  | bound + 1, level, n =>
    let inner := level + 1
    let fields : Except Misfit Fields := do
      let built ← gather ((← atLevel inner n.entriesOf).map fun (k, v) => do
        if isCollection k.tag then atLevel inner (unfitKey n.mark k)
        else return (← atLevel inner k.scalarValue, ← valueAt bound inner v))
      return Table.ofEntries built
    let pairs (what : String) : Except Misfit (List Value) := do
      gather ((← atLevel inner (n.pairsOf what)).map fun item => do
        let (k, v) ← atLevel inner item
        match ← gather [valueAt bound inner k, valueAt bound inner v] with
        | [k, v] => return .pair k v
        | _ => atLevel inner tooDeep)
    match n with
    | .loop _ isMapping => .ok (.loop isMapping)
    | _ =>
      match n.tag with
      | .seq => do
        return .list (← gather ((← atLevel inner n.itemsOf).map (valueAt bound inner)))
      | .map => .mapping <$> fields
      | .set => (fun f => .set (Table.keys f)) <$> fields
      | .orderedMap => .list <$> pairs "an ordered map"
      | .pairs => .list <$> pairs "pairs"
      | _ => .scalar <$> atLevel level n.scalarValue

end Node

/-- The value that a YAML text holds; a text without a document holds null. -/
def read (text : String) : Except Fault Value := do
  match ← Node.ofText text with
  | none => return .null
  | some n =>
    match n.valueAt (n.height + 1) 0 with
    | .ok v => return v
    | .error e => throw e.fault

end Conveyor.Yaml
