import Conveyor.Calendar
import Conveyor.Yaml.FlowText

/-!
Tags, and the tags that plain texts have by their form: numbers, truth values, dates and the signs
for nothing, for merging and for a default value.
-/

namespace Conveyor.Yaml

inductive Tag
  | null
  | bool
  | int
  | float
  | timestamp
  | str
  | merge
  | value
  | binary
  | set
  | orderedMap
  | pairs
  | seq
  | map
  | unknown (name : String)
  deriving DecidableEq, Repr

def Tag.names : List (String × Tag) := [
  ("null", .null), ("bool", .bool), ("int", .int), ("float", .float), ("timestamp", .timestamp),
  ("str", .str), ("merge", .merge), ("value", .value), ("binary", .binary), ("set", .set),
  ("omap", .orderedMap), ("pairs", .pairs), ("seq", .seq), ("map", .map)]

/-- What the names of the standard tags start with. -/
def Tag.standard : String := "tag:yaml.org,2002:"

def Tag.ofName (name : String) : Tag :=
  if name.startsWith standard then
    (names.lookup (name.drop standard.length).toString).getD (.unknown name)
  else .unknown name

def Tag.name : Tag → String
  | .unknown name => name
  | t => standard ++ ((names.find? fun e => e.2 = t).map (·.1)).getD ""

/-- There are values of the tag: it is known, and no sign. -/
def Tag.hasValues : Tag → Bool
  | .unknown _ | .merge | .value => false
  | _ => true

/-- A date or moment as it is spelled: digits that may name no real day. -/
structure Timestamp where
  year : Nat
  month : List Char
  day : List Char
  time : Option (Nat × Nat × Nat)
  fraction : List Char
  zone : Option Int
  deriving DecidableEq, Repr

namespace Timestamp

def number (ds : List Char) : Nat := ds.foldl (fun n d => n * 10 + (d.toNat - 0x30)) 0

def takeDigits (low high : Nat) (cs : List Char) : Option (List Char × List Char) :=
  let ds := (cs.take high).takeWhile Char.isDigit
  if low ≤ ds.length then some (ds, cs.drop ds.length) else none

def expect (c : Char) : List Char → Option (List Char)
  | d :: rest => if c = d then some rest else none
  | [] => none

def isSpace (c : Char) : Bool := c = ' ' || c = '\t'

/-- The offset at the end of a moment, in seconds; nothing is no offset. -/
def parseZone : List Char → Option (Option Int)
  | [] => some none
  | cs => do
    match cs.dropWhile isSpace with
    | ['Z'] => some (some 0)
    | c :: rest =>
      if c = '+' || c = '-' then
        let (hours, rest) ← takeDigits 1 2 rest
        let minutes ← match rest with
          | [] => some []
          | ':' :: rest => do
            let (ds, rest) ← takeDigits 2 2 rest
            if rest.isEmpty then some ds else none
          | _ => none
        let seconds : Int := (number hours * 3600 + number minutes * 60 : Nat)
        some (some (if c = '-' then -seconds else seconds))
      else none
    | [] => none

def parse (cs : List Char) : Option Timestamp := do
  let (year, cs) ← takeDigits 4 4 cs
  let (month, cs) ← takeDigits 1 2 (← expect '-' cs)
  let (day, cs) ← takeDigits 1 2 (← expect '-' cs)
  if cs.isEmpty then some ⟨number year, month, day, none, [], none⟩
  else
    let cs ← match cs with
      | 'T' :: rest | 't' :: rest => some rest
      | c :: rest => if isSpace c then some (rest.dropWhile isSpace) else none
      | [] => none
    let (hour, cs) ← takeDigits 1 2 cs
    let (minute, cs) ← takeDigits 2 2 (← expect ':' cs)
    let (second, cs) ← takeDigits 2 2 (← expect ':' cs)
    let (fraction, cs) := match cs with
      | '.' :: rest => (rest.takeWhile Char.isDigit, rest.dropWhile Char.isDigit)
      | _ => ([], cs)
    let zone ← parseZone cs
    some ⟨number year, month, day, some (number hour, number minute, number second), fraction, zone⟩

/-- A plain text of this form is a timestamp; without a time, month and day take two digits each. -/
def isPlain (t : Timestamp) : Bool :=
  t.time.isSome || (t.month.length = 2 && t.day.length = 2)

end Timestamp

namespace Tag

def dropSign : List Char → List Char
  | c :: rest => if c = '+' || c = '-' then rest else c :: rest
  | [] => []

def isDigitOrGap (c : Char) : Bool := c.isDigit || c = '_'

/-- Parts of a number in base sixty after the first: one digit, or two below sixty. -/
def isSixtieth : List Char → Bool
  | [d] => d.isDigit
  | [d, e] => '0' ≤ d && d ≤ '5' && e.isDigit
  | _ => false

def colonParts (cs : List Char) : List (List Char) :=
  match cs with
  | [] => [[]]
  | c :: rest =>
    match colonParts rest with
    | [] => [[c]]
    | part :: parts => if c = ':' then [] :: part :: parts else (c :: part) :: parts

def startsWithDigit (cs : List Char) : Bool := cs.head?.any Char.isDigit

/-- A whole number in base two, eight, ten, sixteen or sixty. -/
def isInt (cs : List Char) : Bool :=
  match dropSign cs with
  | ['0'] => true
  | '0' :: 'b' :: ds => !ds.isEmpty && ds.all fun c => c = '0' || c = '1' || c = '_'
  | '0' :: 'x' :: ds => !ds.isEmpty && ds.all fun c => (Text.hexValue? c).isSome || c = '_'
  | '0' :: ds => ds.all fun c => ('0' ≤ c && c ≤ '7') || c = '_'
  | d :: ds =>
    d.isDigit && match colonParts ds with
      | first :: parts => first.all isDigitOrGap && parts.all isSixtieth
      | [] => false
  | [] => false

def isExponent : List Char → Bool
  | [] => true
  | e :: s :: ds =>
    (e = 'e' || e = 'E') && (s = '+' || s = '-') && !ds.isEmpty && ds.all Char.isDigit
  | _ => false

def isFloat (cs : List Char) : Bool :=
  let unsigned := dropSign cs
  let whole := unsigned.takeWhile (· != '.')
  let rest := unsigned.drop whole.length
  match rest with
  | [] => false
  | _ :: after =>
    let ending := after.dropWhile isDigitOrGap
    if whole.isEmpty then
      (["inf", "Inf", "INF"].any fun w => after = w.toList) ||
        (unsigned = cs && ((["nan", "NaN", "NAN"].any fun w => after = w.toList) ||
          (startsWithDigit after && isExponent ending)))
    else if startsWithDigit whole then
      match colonParts whole with
      | [first] => first.all isDigitOrGap && isExponent ending
      | first :: parts => first.all isDigitOrGap && parts.all isSixtieth && ending.isEmpty
      | [] => false
    else false

def truthWords : List String := [
  "yes", "Yes", "YES", "no", "No", "NO", "true", "True", "TRUE", "false", "False", "FALSE",
  "on", "On", "ON", "off", "Off", "OFF"]

def nullWords : List String := ["", "~", "null", "Null", "NULL"]

def ofPlain (text : String) : Tag :=
  let cs := text.toList
  if truthWords.contains text then .bool
  else if isFloat cs then .float
  else if isInt cs then .int
  else if text = "<<" then .merge
  else if nullWords.contains text then .null
  else if (Timestamp.parse cs).any (·.isPlain) then .timestamp
  else if text = "=" then .value
  else .str

end Tag

end Conveyor.Yaml
