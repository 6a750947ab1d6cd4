import Conveyor.Shell.Utility.Options

/-!
Search for lines that match a simple regular expression.
-/

namespace Conveyor.Shell.Utility

/-- What one character of a text may be. -/
inductive Atom
  | char (c : Char)
  | any
  | set (negated : Bool) (ranges : List (Char × Char))
  deriving DecidableEq, Repr

inductive Count
  | one
  | many
  | some
  | optional
  deriving DecidableEq, Repr

structure Expression where
  atStart : Bool := false
  atEnd : Bool := false
  atoms : List (Atom × Count) := []
  deriving Repr

namespace Expression

def setRanges : Nat → Bool → List Char → Option (List (Char × Char) × List Char)
  | 0, _, _ => none
  | _, _, [] => none
  | fuel + 1, first, c :: rest =>
    if c = ']' && !first then some ([], rest)
    else match rest with
      | '-' :: d :: after =>
        if d = ']' then (setRanges fuel false rest).map fun (rs, r) => ((c, c) :: rs, r)
        else (setRanges fuel false after).map fun (rs, r) => ((c, d) :: rs, r)
      | _ => (setRanges fuel false rest).map fun (rs, r) => ((c, c) :: rs, r)

def readCount (extended : Bool) : List Char → Count × List Char
  | '*' :: rest => (.many, rest)
  | '+' :: rest => if extended then (.some, rest) else (.one, '+' :: rest)
  | '?' :: rest => if extended then (.optional, rest) else (.one, '?' :: rest)
  | cs => (.one, cs)

/-- Reads atoms up to the end of an expression, and whether the expression ends at line ends. -/
def readAtoms (extended : Bool) : Nat → List Char → List (Atom × Count) × Bool
  | 0, _ => ([], false)
  | _, [] => ([], false)
  | _, ['$'] => ([], true)
  | fuel + 1, c :: rest =>
    let (atom, rest) : Atom × List Char := match c, rest with
      | '\\', d :: rest => (.char d, rest)
      | '.', rest => (.any, rest)
      | '[', '^' :: body => match setRanges (body.length + 1) true body with
        | some (rs, rest) => (.set true rs, rest)
        | none => (.char c, rest)
      | '[', body => match setRanges (body.length + 1) true body with
        | some (rs, rest) => (.set false rs, rest)
        | none => (.char c, rest)
      | c, rest => (.char c, rest)
    let (count, rest) := readCount extended rest
    let (atoms, atEnd) := readAtoms extended fuel rest
    ((atom, count) :: atoms, atEnd)

def ofText (extended : Bool) (s : String) : Expression :=
  let (atStart, cs) := match s.toList with
    | '^' :: rest => (true, rest)
    | cs => (false, cs)
  let (atoms, atEnd) := readAtoms extended (cs.length + 1) cs
  { atStart, atEnd, atoms }

/-- The expression of a text without any special characters. -/
def ofPlain (s : String) : Expression := { atoms := s.toList.map fun c => (.char c, .one) }

def accepts : Atom → Char → Bool
  | .char a, c => a = c
  | .any, _ => true
  | .set negated rs, c => (rs.any fun (a, b) => a ≤ c && c ≤ b) != negated

/-- Atoms match a text from its start, up to its end if `atEnd`. -/
def matchesHere (atEnd : Bool) : List (Atom × Count) → List Char → Bool
  | [], cs => !atEnd || cs.isEmpty
  | (_, .one) :: _, [] => false
  | (a, .one) :: rest, c :: cs => accepts a c && matchesHere atEnd rest cs
  | (_, .some) :: _, [] => false
  | (a, .some) :: rest, c :: cs => accepts a c && matchesHere atEnd ((a, .many) :: rest) cs
  | (_, .optional) :: rest, [] => matchesHere atEnd rest []
  | (a, .optional) :: rest, c :: cs =>
    (accepts a c && matchesHere atEnd rest cs) || matchesHere atEnd rest (c :: cs)
  | (_, .many) :: rest, [] => matchesHere atEnd rest []
  | (a, .many) :: rest, c :: cs =>
    matchesHere atEnd rest (c :: cs) || (accepts a c && matchesHere atEnd ((a, .many) :: rest) cs)
termination_by atoms cs => (cs.length, atoms.length)

/-- An expression matches somewhere in a line. -/
def isIn (e : Expression) (line : List Char) : Bool :=
  if e.atStart then matchesHere e.atEnd e.atoms line
  else (List.range (line.length + 1)).any fun n =>
    matchesHere e.atEnd e.atoms (line.drop n)

end Expression

def grep : Utility := withOptions "grep" "qivcnFEGxlshH" "e" 2 fun o => do
  match o.value? 'e', o.operands with
  | none, [] =>
    Flow.complain "Usage: grep [OPTION]... PATTERNS [FILE]..."
    Flow.complain "Try 'grep --help' for more information."
    return 2
  | given, operands =>
    let pattern := given.getD (operands.headD "")
    let files := if given.isSome then operands else operands.drop 1
    let fold (s : String) : String := if o.has 'i' then s.map Char.toLower else s
    let expressions := (pattern.splitOn "\n").map fun p =>
      if o.has 'F' then Expression.ofPlain (fold p) else .ofText (o.has 'E') (fold p)
    let expressions := if o.has 'x' then
        expressions.map fun e => { e with atStart := true, atEnd := true }
      else expressions
    let fits (line : Bytes) : Bool :=
      let text := (fold (Text.decodeLossy (line.filter (· != 0x0a)))).toList
      (expressions.any fun e => e.isIn text) != o.has 'v'
    let (sources, complete) ← contents "grep" files id
    let named := 1 < files.length && !o.has 'h' || o.has 'H'
    let found ← sources.mapM fun (name, b) => do
      let lead := if named then name ++ ":" else ""
      let hits := (linesOf b).zipIdx.filter fun (line, _) => fits line
      if o.has 'q' then pure ()
      else if o.has 'l' then
        if !hits.isEmpty then Flow.printLine name
      else if o.has 'c' then Flow.printLine (lead ++ toString hits.length)
      else
        for (line, i) in hits do
          Flow.printText (lead ++ if o.has 'n' then toString (i + 1) ++ ":" else "")
          Flow.print (if line.getLast? = some 0x0a then line else line ++ [0x0a])
      return !hits.isEmpty
    if found.any id && (complete || o.has 'q') then return 0
    return if complete then 1 else 2

end Conveyor.Shell.Utility
