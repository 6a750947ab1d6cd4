/-!
Tables of code points. A character class is a list of closed ranges; a case mapping is a list of
shifted runs, where a run may take every second code point only.
-/

namespace Conveyor.Text

abbrev CodeRange := Nat × Nat

def inRanges (ranges : List CodeRange) (c : Char) : Bool :=
  ranges.any fun r => r.1 ≤ c.toNat && c.toNat ≤ r.2

/-- Every `step`-th code point from `first` to `last` moves by `delta`. -/
structure CaseShift where
  first : Nat
  last : Nat
  step : Nat
  delta : Int
  deriving DecidableEq, Repr

def CaseShift.covers (s : CaseShift) (c : Char) : Bool :=
  s.first ≤ c.toNat && c.toNat ≤ s.last && (c.toNat - s.first) % s.step == 0

/-- Moves a character by the run that covers it, if there is one. -/
def shiftCase (table : List CaseShift) (c : Char) : Char :=
  match table.find? (·.covers c) with
  | some s => Char.ofNat (c.toNat + s.delta).toNat
  | none => c

end Conveyor.Text
