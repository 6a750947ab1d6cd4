import Conveyor.Number.Binary64
import Conveyor.Number.Integer

/-!
Numbers as decimal texts. A floating point number is written with the fewest digits that read back
as itself, the nearest such digits where there are several; reading rounds to the nearest number.
-/

namespace Conveyor.Number

open Conveyor.Text

def parseInt (quote : String → String) (s : String) : Except IntegerError Int :=
  let (negative, cs) := splitSign (trimNumber s)
  match digitRun false cs with
  | none => .error (.malformed (quote s))
  | some ds =>
    if maxDigits < ds.length then .error (.tooLong ds.length)
    else .ok (signed negative (ofDigits 10 ds))

/-- The digits before a mark, and what follows; underscores stand between digits only. -/
def takeDigits : Option Char → List Char → List Nat × List Char
  | _, [] => ([], [])
  | last, c :: rest =>
    if c = '_' then
      match last.bind digitValue?, rest.head?.bind digitValue? with
      | some _, some _ => takeDigits none rest
      | _, _ => ([], c :: rest)
    else match digitValue? c with
      | some d =>
        let (ds, rest) := takeDigits (some c) rest
        (d :: ds, rest)
      | none => ([], c :: rest)

/-- The power of ten after the digits, which must end the text. -/
def parseExponent : List Char → Option Int
  | [] => some 0
  | c :: rest =>
    if c = 'e' || c = 'E' then
      let (negative, cs) := splitSign rest
      match takeDigits none cs with
      | ([], _) => none
      | (ds, []) => some (signed negative (ofDigits 10 ds))
      | _ => none
    else none

/-- A number without a sign: the words for infinity and not-a-number, or digits with a point. -/
def parseMagnitude (negative : Bool) (cs : List Char) : Option Binary64 :=
  let word := String.ofList (cs.map Char.toLower)
  if word = "inf" || word = "infinity" then some (.infinite negative)
  else if word = "nan" then some .nan
  else
    let (whole, rest) := takeDigits none cs
    let (fraction, rest) := match rest with
      | '.' :: more => takeDigits none more
      | _ => ([], rest)
    if whole.isEmpty && fraction.isEmpty then none
    else (parseExponent rest).map fun e =>
      .ofDecimal negative (ofDigits 10 (whole ++ fraction)) (e - fraction.length)

def parseFloat (s : String) : Option Binary64 :=
  let (negative, cs) := splitSign (trimNumber s)
  parseMagnitude negative cs

def decimalDigits (n : Nat) : List Char := (toString n).toList

/-- The greatest `p` with `10 ^ p ≤ num / den`, for a positive quotient. -/
def log10Floor (num den : Nat) : Int :=
  let holds (p : Int) : Bool :=
    if p < 0 then den ≤ num * tenTo p.natAbs else den * tenTo p.natAbs ≤ num
  let guess : Int := ((Nat.log2 num : Int) - (Nat.log2 den : Int)) * 30103 / 100000
  if holds (guess + 1) then guess + 1 else if holds guess then guess
  else if holds (guess - 1) then guess - 1 else guess - 2

/-- A decimal grid point `digits * 10 ^ power`. -/
structure GridPoint where
  digits : Nat
  power : Int
  deriving DecidableEq, Repr

/-- `num / den` as a quotient in units of `10 ^ power`. -/
def inUnits (num den : Nat) (power : Int) : Nat × Nat :=
  if power < 0 then (num * tenTo power.natAbs, den) else (num, den * tenTo power.natAbs)

/-- The neighbour of `significand * 2 ^ exponent` on the grid of `n` digits that reads back as it:
the nearer one if both do, and of two equally near ones the even. -/
def neighbour? (significand : Nat) (exponent : Int) (n : Nat) : Option GridPoint :=
  -- all bounds are in quarters of the unit in the last place
  let (num, den) :=
    if exponent < 0 then (4 * significand, 4 * twoTo exponent.natAbs)
    else (4 * significand * twoTo exponent.natAbs, 4)
  let unit := if exponent < 0 then 1 else twoTo exponent.natAbs
  let below := if significand = twoTo 52 ∧ exponent ≠ Binary64.leastExponent then unit else 2 * unit
  let above := 2 * unit
  let power := log10Floor num den - (n - 1 : Nat)
  let (vn, vd) := inUnits num den power
  let (ln, _) := inUnits (num - below) den power
  let (hn, _) := inUnits (num + above) den power
  let closed := significand % 2 = 0
  let reads (k : Nat) : Bool :=
    if closed then ln ≤ k * vd && k * vd ≤ hn else ln < k * vd && k * vd < hn
  let low := vn / vd
  let high := low + 1
  let toLow := vn - low * vd
  let toHigh := high * vd - vn
  let preferLow := toLow < toHigh || (toLow = toHigh && low % 2 = 0)
  let pick := if preferLow then [low, high] else [high, low]
  (pick.find? reads).map fun k => ⟨k, power⟩

/-- The decimal with the fewest digits that reads back as `significand * 2 ^ exponent`. -/
def shortest (significand : Nat) (exponent : Int) : GridPoint :=
  ((List.range 17).findSome? fun n => neighbour? significand exponent (n + 1)).getD ⟨0, 0⟩

def trimZeros (ds : List Char) : List Char := (ds.reverse.dropWhile (· = '0')).reverse

/-- Writes digits with the decimal point after the first `point` of them: positional from 0.0001 up
to below 10^16, otherwise with an exponent of at least two digits. -/
def layDigits (ds : List Char) (point : Int) : List Char :=
  if -4 < point ∧ point ≤ 16 then
    if point ≤ 0 then '0' :: '.' :: List.replicate point.natAbs '0' ++ ds
    else
      let p := point.natAbs
      if ds.length ≤ p then ds ++ List.replicate (p - ds.length) '0' ++ ['.', '0']
      else ds.take p ++ '.' :: ds.drop p
  else
    let e := point - 1
    let mantissa := match ds with
      | [] => []
      | [d] => [d]
      | d :: rest => d :: '.' :: rest
    let width := decimalDigits e.natAbs
    let width := if width.length < 2 then '0' :: width else width
    mantissa ++ 'e' :: (if e < 0 then '-' else '+') :: width

def Binary64.text : Binary64 → String
  | .nan => "nan"
  | .infinite negative => if negative then "-inf" else "inf"
  | .finite negative m e =>
    let sign := if negative then ['-'] else []
    if m = 0 then String.ofList (sign ++ ['0', '.', '0'])
    else
      let g := shortest m e
      let ds := decimalDigits g.digits
      String.ofList (sign ++ layDigits (trimZeros ds) (ds.length + g.power))

end Conveyor.Number
