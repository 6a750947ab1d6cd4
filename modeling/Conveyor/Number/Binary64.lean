import Conveyor.Number.Power

/-!
Floating point numbers of double precision as exact values. A finite number is a sign, a whole
significand below 2^53 and a power of two; `ofRatio` rounds a quotient to the nearest of them, ties
to the even significand.
-/

namespace Conveyor.Number

/-- A number of double precision. The finite ones are `± significand * 2 ^ exponent`. -/
inductive Binary64
  | nan
  | infinite (negative : Bool)
  | finite (negative : Bool) (significand : Nat) (exponent : Int)
  deriving DecidableEq, Repr

namespace Binary64

def leastExponent : Int := -1074

def zero (negative : Bool) : Binary64 := .finite negative 0 leastExponent

instance : Inhabited Binary64 := ⟨zero false⟩

/-- `n / 2 ^ e` as a quotient of whole numbers. -/
def scaled (num den : Nat) (e : Int) : Nat × Nat :=
  if e < 0 then (num * twoTo e.natAbs, den) else (num, den * twoTo e.natAbs)

/-- The nearest whole number to a quotient, an exact half going to the even neighbour. -/
def roundHalfEven (num den : Nat) : Nat :=
  let q := num / den
  let r := num % den
  if 2 * r < den then q else if den < 2 * r then q + 1 else if q % 2 = 0 then q else q + 1

/-- The exponent at which a positive quotient has a significand of 53 bits, or the least one. -/
def exponentFor (num den : Nat) : Int :=
  let guess : Int := (Nat.log2 num : Int) - (Nat.log2 den : Int) - 52
  let (n, d) := scaled num den guess
  max leastExponent (if n < twoTo 52 * d then guess - 1 else guess)

/-- The number nearest to `num / den`. -/
def ofRatio (negative : Bool) (num den : Nat) : Binary64 :=
  if num = 0 then zero negative
  else
    let e := exponentFor num den
    let (n, d) := scaled num den e
    let m := roundHalfEven n d
    let (m, e) := if m = twoTo 53 then (twoTo 52, e + 1) else (m, e)
    if 971 < e then .infinite negative else .finite negative m e

def ofInt (i : Int) : Binary64 := ofRatio (i < 0) i.natAbs 1

/-- The number nearest to `digits * 10 ^ exponent`. -/
def ofDecimal (negative : Bool) (digits : Nat) (exponent : Int) : Binary64 :=
  if digits = 0 then zero negative
  else
    let magnitude : Int := (Nat.log2 digits : Int) * 30103 / 100000 + exponent
    if 400 < magnitude then .infinite negative
    else if magnitude < -400 then zero negative
    else if exponent < 0 then ofRatio negative digits (tenTo exponent.natAbs)
    else ofRatio negative (digits * tenTo exponent.natAbs) 1

/-- The sign bit; a number that is not a number counts as positive. -/
def isNegative : Binary64 → Bool
  | .nan => false
  | .infinite n | .finite n _ _ => n

def negate : Binary64 → Binary64
  | .nan => .nan
  | .infinite n => .infinite !n
  | .finite n m e => .finite (!n) m e

/-- A whole multiple of `2 ^ e` as the nearest number; a zero sum is positive. -/
def ofScaled (i : Int) (e : Int) : Binary64 :=
  if e < 0 then ofRatio (i < 0) i.natAbs (twoTo e.natAbs)
  else ofRatio (i < 0) (i.natAbs * twoTo e.natAbs) 1

def add : Binary64 → Binary64 → Binary64
  | .nan, _ | _, .nan => .nan
  | .infinite a, .infinite b => if a = b then .infinite a else .nan
  | .infinite a, _ | _, .infinite a => .infinite a
  | .finite n m e, .finite n' m' e' =>
    let low := min e e'
    let a := (m * twoTo (e - low).natAbs : Nat)
    let b := (m' * twoTo (e' - low).natAbs : Nat)
    if m = 0 ∧ m' = 0 then zero (n && n')
    else ofScaled ((if n then -(a : Int) else a) + (if n' then -(b : Int) else b)) low

def mul : Binary64 → Binary64 → Binary64
  | .nan, _ | _, .nan => .nan
  | .infinite a, .infinite b => .infinite (a != b)
  | .infinite a, .finite b m _ | .finite b m _, .infinite a =>
    if m = 0 then .nan else .infinite (a != b)
  | .finite a m e, .finite b m' e' =>
    if e + e' < 0 then ofRatio (a != b) (m * m') (twoTo (e + e').natAbs)
    else ofRatio (a != b) (m * m' * twoTo (e + e').natAbs) 1

/-- The exact value of a finite number as a quotient. -/
def ratio? : Binary64 → Option (Int × Nat)
  | .finite n m e =>
    let (num, den) := if e < 0 then (m, twoTo e.natAbs) else (m * twoTo e.natAbs, 1)
    some (if n then -(num : Int) else num, den)
  | _ => none

/-- The whole part of a finite number. -/
def truncate? (x : Binary64) : Option Int := x.ratio?.map fun (n, d) => n.tdiv d

/-- Equal as numbers: the zeros are equal, and what is not a number equals nothing. -/
def numEq : Binary64 → Binary64 → Bool
  | .nan, _ | _, .nan => false
  | .finite n m e, .finite n' m' e' => (m = 0 && m' = 0) || (n = n' && m = m' && e = e')
  | a, b => a = b

/-- The number has exactly the value of a whole number. -/
def eqInt (x : Binary64) (i : Int) : Bool :=
  match x.ratio? with
  | some (n, d) => n = i * d
  | none => false

/-- Neither zero nor absent: what counts as true. -/
def isNonzero : Binary64 → Bool
  | .finite _ m _ => m ≠ 0
  | _ => true

end Binary64

end Conveyor.Number
