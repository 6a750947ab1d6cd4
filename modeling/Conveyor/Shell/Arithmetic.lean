import Conveyor.Number.Integer
import Conveyor.Number.Power
import Conveyor.Shell.Scanner

/-!
Arithmetic of the shell: whole numbers of 64 bits, with variables and assignments to them.
-/

namespace Conveyor.Shell.Arithmetic

inductive Mistake
  | syntaxError (expected : String)
  | divisionByZero
  | badNumber (text : String)
  deriving DecidableEq, Repr

abbrev Bindings := List (String × String)

structure State where
  rest : List Char
  read : String → Option String
  assigned : Bindings := []

abbrev Eval (α : Type) := StateT State (Except Mistake) α

def wrap (i : Int) : Int := i.bmod (Number.twoTo 64)

/-- The binary operators by level, the loosest first; longer signs first. -/
def levels : List (List String) := [
  ["||"], ["&&"], ["|"], ["^"], ["&"], ["==", "!="], ["<=", ">=", "<", ">"], ["<<", ">>"],
  ["+", "-"], ["*", "/", "%"]]

/-- Signs that an operator must not be the start of. -/
def longerSigns : List String := ["||", "&&", "<<", ">>", "<=", ">=", "==", "!="]

def ofBool (b : Bool) : Int := if b then 1 else 0

/-- The bits of two numbers joined. -/
def bitwise (f : Nat → Nat → Nat) (a b : Int) : Int :=
  wrap (f (a % Number.twoTo 64).toNat (b % Number.twoTo 64).toNat)

def apply (op : String) (a b : Int) : Except Mistake Int :=
  match op with
  | "||" => .ok (ofBool (a ≠ 0 || b ≠ 0))
  | "&&" => .ok (ofBool (a ≠ 0 && b ≠ 0))
  | "|" => .ok (bitwise Nat.lor a b)
  | "^" => .ok (bitwise Nat.xor a b)
  | "&" => .ok (bitwise Nat.land a b)
  | "==" => .ok (ofBool (a = b))
  | "!=" => .ok (ofBool (a ≠ b))
  | "<=" => .ok (ofBool (a ≤ b))
  | ">=" => .ok (ofBool (b ≤ a))
  | "<" => .ok (ofBool (a < b))
  | ">" => .ok (ofBool (b < a))
  | "<<" => .ok (wrap (a * Number.twoTo (b % 64).toNat))
  | ">>" => .ok (a.fdiv (Number.twoTo (b % 64).toNat))
  | "+" => .ok (wrap (a + b))
  | "-" => .ok (wrap (a - b))
  | "*" => .ok (wrap (a * b))
  | "/" => if b = 0 then .error .divisionByZero else .ok (wrap (a.tdiv b))
  | _ => if b = 0 then .error .divisionByZero else .ok (a.tmod b)

/-- The number that digits of a base spell. -/
def digits? (base : Nat) (cs : List Char) : Option Nat :=
  let value (c : Char) : Nat :=
    if c.isDigit then c.toNat - 0x30
    else if 'a' ≤ c && c ≤ 'f' then c.toNat - 0x57
    else if 'A' ≤ c && c ≤ 'F' then c.toNat - 0x37
    else base
  if cs.isEmpty || cs.any fun c => base ≤ value c then none
  else some (Number.ofDigits base (cs.map value))

/-- A number as scripts write it: in base ten, eight or sixteen. -/
def number? (cs : List Char) : Option Int :=
  let n := match cs with
    | '0' :: 'x' :: ds | '0' :: 'X' :: ds => digits? 16 ds
    | '0' :: d :: ds => digits? 8 (d :: ds)
    | ds => digits? 10 ds
  n.map fun n => min n (Number.twoTo 63 - 1)

def leadingNumber (cs : List Char) : List Char :=
  let isHexadecimal (c : Char) : Bool :=
    c.isDigit || ('a' ≤ c && c ≤ 'f') || ('A' ≤ c && c ≤ 'F')
  match cs with
  | '0' :: 'x' :: rest => '0' :: 'x' :: rest.takeWhile isHexadecimal
  | '0' :: 'X' :: rest => '0' :: 'X' :: rest.takeWhile isHexadecimal
  | '0' :: rest => '0' :: rest.takeWhile fun c => '0' ≤ c && c ≤ '7'
  | cs => cs.takeWhile Char.isDigit

/-- The value of a variable; an empty one is zero. -/
def valueOf (name : String) : Eval Int := do
  let s ← get
  let text := ((s.assigned.lookup name).orElse fun _ => s.read name).getD ""
  let (negative, cs) := Number.splitSign (Number.trimNumber text)
  if cs.isEmpty then return 0
  match number? cs with
  | some n => return if negative then -n else n
  | none => throw (.badNumber text)

def skip : Eval Unit :=
  modify fun s => { s with rest := s.rest.dropWhile fun c => c = ' ' || c = '\t' || c = '\n' }

def drop (n : Nat) : Eval Unit := modify fun s => { s with rest := s.rest.drop n }

def takeOperator (ops : List String) : Eval (Option String) := do
  skip
  let rest := (← get).rest
  match ops.find? fun op => op.toList.isPrefixOf rest with
  | none => return none
  | some op =>
    if longerSigns.any fun long => op.toList.isPrefixOf long.toList && op ≠ long &&
        long.toList.isPrefixOf rest then return none
    if rest[op.length]? = some '=' && op.length = 1 && op ≠ "<" && op ≠ ">" then return none
    drop op.length
    return some op

mutual

/-- An expression with its conditional or assignment. -/
def expression : Nat → Eval Int
  | 0 => throw (.syntaxError "primary")
  | fuel + 1 => do
    skip
    let s ← get
    let name := s.rest.takeWhile isNameChar
    if isName name then
      let after := (s.rest.drop name.length).dropWhile (· = ' ')
      let op := after.takeWhile fun c => "+-*/%&|^<>".toList.contains c
      let isAssignment := (after.drop op.length).head? = some '=' &&
        (after.drop op.length)[1]? ≠ some '=' && !(op = ['<'] || op = ['>'])
      if isAssignment then
        set { s with rest := after.drop (op.length + 1) }
        let value ← expression fuel
        let name := String.ofList name
        let value ← if op.isEmpty then pure value else do
          match apply (String.ofList op) (← valueOf name) value with
          | .ok v => pure v
          | .error e => throw e
        modify fun s => { s with assigned := (name, toString value) :: s.assigned }
        return value
    let condition ← binary fuel levels
    match ← takeOperator ["?"] with
    | none => return condition
    | some _ =>
      let first ← expression fuel
      match ← takeOperator [":"] with
      | none => throw (.syntaxError "':'")
      | some _ =>
        let second ← expression fuel
        return if condition ≠ 0 then first else second

def binary : Nat → List (List String) → Eval Int
  | 0, _ => throw (.syntaxError "primary")
  | fuel + 1, [] => unary fuel
  | fuel + 1, ops :: tighter => do
    let first ← binary fuel tighter
    binaryAfter fuel ops tighter first

def binaryAfter : Nat → List String → List (List String) → Int → Eval Int
  | 0, _, _, first => return first
  | fuel + 1, ops, tighter, first => do
    match ← takeOperator ops with
    | none => return first
    | some op =>
      let second ← binary fuel tighter
      match apply op first second with
      | .ok v => binaryAfter fuel ops tighter v
      | .error e => throw e

def unary : Nat → Eval Int
  | 0 => throw (.syntaxError "primary")
  | fuel + 1 => do
    skip
    match (← get).rest with
    | '-' :: _ =>
      drop 1
      return wrap (-(← unary fuel))
    | '+' :: _ =>
      drop 1
      unary fuel
    | '!' :: _ =>
      drop 1
      return ofBool ((← unary fuel) = 0)
    | '~' :: _ =>
      drop 1
      return -(← unary fuel) - 1
    | '(' :: _ =>
      drop 1
      let v ← expression fuel
      match ← takeOperator [")"] with
      | some _ => return v
      | none => throw (.syntaxError "')'")
    | c :: rest =>
      if c.isDigit then
        let word := leadingNumber (c :: rest)
        drop word.length
        return (number? word).getD 0
      else if isNameStart c then
        let name := (c :: rest).takeWhile isNameChar
        drop name.length
        valueOf (String.ofList name)
      else throw (.syntaxError "primary")
    | [] => throw (.syntaxError "primary")

end

def evaluate (read : String → Option String) (text : String) :
    Except Mistake (Int × Bindings) := do
  let cs := text.toList
  let work : Eval Int := do
    let v ← expression (20 * cs.length + 40)
    skip
    if (← get).rest.isEmpty then return v else throw (.syntaxError "EOF")
  let (v, s) ← work.run { rest := cs, read }
  return (v, s.assigned.reverse)

def Mistake.text (expression : String) : Mistake → String
  | .syntaxError expected =>
    "arithmetic expression: expecting " ++ expected ++ ": \x22" ++ expression ++ "\x22"
  | .divisionByZero => "arithmetic expression: division by zero: \x22" ++ expression ++ "\x22"
  | .badNumber text => "Illegal number: " ++ text

end Conveyor.Shell.Arithmetic
