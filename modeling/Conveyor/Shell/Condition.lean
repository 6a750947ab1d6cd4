import Conveyor.Shell.Arithmetic
import Conveyor.Shell.Machine

/-!
Conditions: tests of texts, numbers and files.
-/

namespace Conveyor.Shell.Condition

/-- Why a condition has no truth value. -/
inductive Mistake
  | unexpectedOperator (text : String)
  | argumentExpected (text : String)
  | closingExpected
  | illegalNumber (text : String)
  deriving DecidableEq, Repr

def Mistake.text : Mistake → String
  | .unexpectedOperator t => t ++ ": unexpected operator"
  | .argumentExpected t => t ++ ": argument expected"
  | .closingExpected => "closing paren expected"
  | .illegalNumber t => "Illegal number: " ++ t

def unaryOperators : List String :=
  ["-n", "-z", "-e", "-f", "-d", "-r", "-w", "-x", "-s", "-L", "-h", "-t", "-p", "-S", "-b", "-c"]

def binaryOperators : List String :=
  ["=", "!=", "<", ">", "-eq", "-ne", "-lt", "-le", "-gt", "-ge", "-nt", "-ot", "-ef"]

def number (s : String) : Except Mistake Int :=
  let (negative, cs) := Number.splitSign (Number.trimNumber s)
  match Arithmetic.digits? 10 cs with
  | some n => .ok (if negative then -n else n)
  | none => .error (.illegalNumber s)

def unary (m : Machine) (op operand : String) : Bool :=
  let isThere := (m.stat operand).toOption
  match op with
  | "-n" => operand ≠ ""
  | "-z" => operand = ""
  | "-e" | "-r" | "-w" => isThere.isSome
  | "-f" => isThere.any fun | .file .. => true | _ => false
  | "-d" | "-x" => isThere.any fun | .directory => true | _ => false
  | "-s" => isThere.any fun
    | .file (.bytes b) _ => !b.isEmpty
    | _ => true
  | "-L" | "-h" => (m.standing operand).toOption.any fun | .link _ => true | _ => false
  | _ => false

def modified (m : Machine) (path : String) : Option Int :=
  match m.stat path with
  | .ok (.file _ time) => some time
  | .ok _ => some 0
  | .error _ => none

def binary (m : Machine) (op a b : String) : Except Mistake Bool := do
  match op with
  | "=" => return a = b
  | "!=" => return a ≠ b
  | "<" => return decide (a < b)
  | ">" => return decide (b < a)
  | "-nt" => return (modified m b).all fun t => (modified m a).any (t < ·)
  | "-ot" => return (modified m a).all fun t => (modified m b).any (t < ·)
  | "-ef" => return a = b && (modified m a).isSome
  | _ =>
    let a ← number a
    let b ← number b
    return match op with
      | "-eq" => a = b
      | "-ne" => a ≠ b
      | "-lt" => a < b
      | "-le" => a ≤ b
      | "-gt" => b < a
      | _ => b ≤ a

/-- The first word is the operand of something and no operator. -/
def startsOperand (ws : List String) : Bool :=
  match ws with
  | w :: op :: _ :: _ => binaryOperators.contains op || !(unaryOperators.contains w || w = "!" || w = "(")
  | [w, _] => !(unaryOperators.contains w || w = "!")
  | _ => true

mutual

/-- Alternatives of a condition: its truth value and the words left. -/
def anyOf (m : Machine) : Nat → List String → Except Mistake (Bool × List String)
  | 0, ws => return (false, ws)
  | fuel + 1, ws => do
    let (a, rest) ← allOf m fuel ws
    match rest with
    | "-o" :: rest =>
      let (b, rest) ← anyOf m fuel rest
      return (a || b, rest)
    | _ => return (a, rest)

def allOf (m : Machine) : Nat → List String → Except Mistake (Bool × List String)
  | 0, ws => return (false, ws)
  | fuel + 1, ws => do
    let (a, rest) ← single m fuel ws
    match rest with
    | "-a" :: rest =>
      let (b, rest) ← allOf m fuel rest
      return (a && b, rest)
    | _ => return (a, rest)

def single (m : Machine) : Nat → List String → Except Mistake (Bool × List String)
  | 0, ws => return (false, ws)
  | _, [] => throw (.argumentExpected "")
  | fuel + 1, w :: rest => do
    if startsOperand (w :: rest) then
      match rest with
      | op :: more =>
        if binaryOperators.contains op then
          match more with
          | b :: more => return (← binary m op w b, more)
          | [] => throw (.argumentExpected op)
        else return (w ≠ "", rest)
      | [] => return (w ≠ "", rest)
    else if w = "!" then
      let (a, rest) ← single m fuel rest
      return (!a, rest)
    else if w = "(" then
      match ← anyOf m fuel rest with
      | (a, ")" :: rest) => return (a, rest)
      | _ => throw .closingExpected
    else match rest with
      | operand :: rest => return (unary m w operand, rest)
      | [] => return (w ≠ "", rest)

end

def evaluate (m : Machine) (ws : List String) : Except Mistake Bool := do
  if ws.isEmpty then return false
  let (a, rest) ← anyOf m (4 * ws.length + 4) ws
  if rest.isEmpty then return a
  throw (.unexpectedOperator (ws[ws.length - rest.length - 1]?.getD ""))

end Conveyor.Shell.Condition
