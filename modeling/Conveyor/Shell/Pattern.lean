/-!
Patterns for names: stars, question marks and sets in brackets. Quoted characters stand for
themselves.
-/

namespace Conveyor.Shell

inductive Element
  | literal (c : Char)
  | anyChar
  | anyText
  | oneOf (negated : Bool) (ranges : List (Char × Char))
  deriving DecidableEq, Repr

/-- A character with a mark that tells whether it was quoted. -/
abbrev Marked := Char × Bool

namespace Element

/-- The ranges of a set, up to its closing bracket, and how many characters it takes. -/
def readRanges : Nat → Bool → List Marked → Option (List (Char × Char) × List Marked)
  | 0, _, _ => none
  | _, _, [] => none
  | fuel + 1, first, (c, q) :: rest =>
    if c = ']' && !q && !first then some ([], rest)
    else match rest with
      | ('-', false) :: (d, qd) :: after =>
        if d = ']' && !qd then (readRanges fuel false rest).map fun (rs, r) => ((c, c) :: rs, r)
        else (readRanges fuel false after).map fun (rs, r) => ((c, d) :: rs, r)
      | _ => (readRanges fuel false rest).map fun (rs, r) => ((c, c) :: rs, r)

/-- The elements of a pattern. A bracket that is not closed stands for itself. -/
def ofMarked : Nat → List Marked → List Element
  | 0, _ => []
  | _, [] => []
  | fuel + 1, (c, q) :: rest =>
    if q then .literal c :: ofMarked fuel rest
    else if c = '*' then .anyText :: ofMarked fuel rest
    else if c = '?' then .anyChar :: ofMarked fuel rest
    else if c = '[' then
      let (negated, body) := match rest with
        | ('!', false) :: body => (true, body)
        | _ => (false, rest)
      match readRanges (body.length + 1) true body with
      | some (ranges, after) => .oneOf negated ranges :: ofMarked fuel after
      | none => .literal c :: ofMarked fuel rest
    else .literal c :: ofMarked fuel rest

def accepts : Element → Char → Bool
  | .literal c, d => c = d
  | .anyChar, _ => true
  | .anyText, _ => false
  | .oneOf negated ranges, d => (ranges.any fun (a, b) => a ≤ d && d ≤ b) != negated

end Element

def matchesText : List Element → List Char → Bool
  | [], cs => cs.isEmpty
  | .anyText :: rest, [] => matchesText rest []
  | .anyText :: rest, c :: cs => matchesText rest (c :: cs) || matchesText (.anyText :: rest) cs
  | _ :: _, [] => false
  | e :: rest, c :: cs => e.accepts c && matchesText rest cs
termination_by es cs => (es.length, cs.length)

def patternOf (cs : List Marked) : List Element := Element.ofMarked (cs.length + 1) cs

/-- The pattern says more than its own characters. -/
def hasWildcard (es : List Element) : Bool :=
  es.any fun | .literal _ => false | _ => true

/-- The text without the part at its start that a pattern matches, the shortest or the longest. -/
def dropMatching (es : List Element) (longest : Bool) (cs : List Char) : List Char :=
  let cuts := (List.range (cs.length + 1)).filter fun n => matchesText es (cs.take n)
  match if longest then cuts.getLast? else cuts.head? with
  | some n => cs.drop n
  | none => cs

/-- The text without the part at its end that a pattern matches. -/
def dropMatchingEnd (es : List Element) (longest : Bool) (cs : List Char) : List Char :=
  let cuts := (List.range (cs.length + 1)).filter fun n => matchesText es (cs.drop n)
  match if longest then cuts.head? else cuts.getLast? with
  | some n => cs.take n
  | none => cs

end Conveyor.Shell
