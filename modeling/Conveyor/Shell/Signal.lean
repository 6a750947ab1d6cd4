import Conveyor.Shell.Machine

/-!
Signals by their names and numbers.
-/

namespace Conveyor.Shell.Signal

def names : List (String × Nat) := [
  ("EXIT", 0), ("HUP", 1), ("INT", 2), ("QUIT", 3), ("ILL", 4), ("TRAP", 5), ("ABRT", 6),
  ("BUS", 7), ("FPE", 8), ("KILL", 9), ("USR1", 10), ("SEGV", 11), ("USR2", 12), ("PIPE", 13),
  ("ALRM", 14), ("TERM", 15), ("STKFLT", 16), ("CHLD", 17), ("CONT", 18), ("STOP", 19),
  ("TSTP", 20), ("TTIN", 21), ("TTOU", 22), ("URG", 23), ("XCPU", 24), ("XFSZ", 25),
  ("VTALRM", 26), ("PROF", 27), ("WINCH", 28), ("IO", 29), ("PWR", 30), ("SYS", 31)]

def number? (s : String) : Option Nat :=
  match s.toNat? with
  | some n => if n ≤ 64 then some n else none
  | none =>
    let s := if s.startsWith "SIG" then String.ofList (s.toList.drop 3) else s
    names.lookup s

def name? (n : Nat) : Option String := (names.find? (·.2 = n)).map (·.1)

def usage : String :=
  "Usage: kill [-s sigspec | -signum | -sigspec] [pid | job]... or\nkill -l [exitstatus]"

/-- Signals that do nothing to a process that does not ask for them. -/
def harmless : List Nat := [0, 17, 18, 23, 28]

/-- Splits the arguments that ask for a signal into its number and the processes. -/
def request? (args : List String) : Option (Nat × List String) :=
  match args with
  | "-s" :: name :: rest => (number? name).map fun n => (n, rest)
  | a :: rest =>
    if a = "--" then some (15, rest)
    else match a.toList with
      | '-' :: c :: name => (number? (String.ofList (c :: name))).map fun n => (n, rest)
      | _ => some (15, a :: rest)
  | [] => some (15, [])

end Conveyor.Shell.Signal
