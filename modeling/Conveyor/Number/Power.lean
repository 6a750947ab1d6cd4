/-!
Powers of the bases that numbers are kept and written in.
-/

namespace Conveyor.Number

def twoTo (n : Nat) : Nat := Nat.pow 2 n

def tenTo (n : Nat) : Nat := Nat.pow 10 n

end Conveyor.Number
