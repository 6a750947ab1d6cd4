import Conveyor.Digest.Sha256
import Conveyor.Number.Decimal
import Conveyor.Shell.Format
import Conveyor.Shell.Utility.Options

/-!
Utilities that print texts and parts of files, and the one that waits.
-/

namespace Conveyor.Shell.Utility

def cat : Utility := withOptions "cat" "uAn" "" 1 fun o => do
  let operands := if o.operands.isEmpty then ["-"] else o.operands
  forEach operands fun path => do
    match ← contentOf path with
    | .ok b =>
      Flow.print b
      return true
    | .error r => refuse "cat" path r

/-- Options of old form: a hyphen and a number. -/
def modernize : List String → List String
  | a :: rest =>
    match a.toList with
    | '-' :: d :: ds => if (d :: ds).all Char.isDigit then "-n" :: String.ofList (d :: ds) :: rest
        else a :: rest
    | _ => a :: rest
  | [] => []

/-- Prints a part of each operand, under its name where there are several. -/
def excerpts (name : String) (o : Options) (part : String → Bytes → Bytes) : Flow Int := do
  let (sources, complete) ← contents name o.operands fun p =>
    "cannot open " ++ "'" ++ p ++ "' for reading"
  for ((path, b), i) in sources.zipIdx do
    if 1 < o.operands.length && !o.has 'q' then
      Flow.printText ((if 0 < i then "\n" else "") ++ "==> " ++
        (if path = "-" then "standard input" else path) ++ " <==\n")
    Flow.print (part path b)
  return if complete then 0 else 1

/-- The number of lines or bytes that an option asks for. -/
def amount (name : String) (text : String) (unit : String) : Except String Nat :=
  match text.toNat? with
  | some n => .ok n
  | none => .error (name ++ ": invalid number of " ++ unit ++ ": '" ++ text ++ "'")

def head : Utility := fun args => withOptions "head" "qv" "nc" 1 (fun o => do
  let (text, unit) := match o.value? 'c' with
    | some c => (c, "bytes")
    | none => ((o.value? 'n').getD "10", "lines")
  match amount "head" text unit with
  | .error e =>
    Flow.complain e
    return 1
  | .ok n => excerpts "head" o fun path b =>
      if unit = "bytes" then
        if path = "/dev/zero" then List.replicate n 0 else b.take n
      else ((linesOf b).take n).flatten) (modernize args)

def tail : Utility := fun args => withOptions "tail" "qvf" "nc" 1 (fun o => do
  let (text, unit) := match o.value? 'c' with
    | some c => (c, "bytes")
    | none => ((o.value? 'n').getD "10", "lines")
  let fromStart := text.startsWith "+"
  match amount "tail" (String.ofList (text.toList.filter fun c => c ≠ '+' && c ≠ '-')) unit with
  | .error e =>
    Flow.complain e
    return 1
  | .ok n => excerpts "tail" o fun _ b =>
      let cut {α : Type} (xs : List α) : List α :=
        if fromStart then xs.drop (n - 1) else xs.drop (xs.length - n)
      if unit = "bytes" then cut b else (cut (linesOf b)).flatten) (modernize args)

def wordCount (b : Bytes) : Nat :=
  (b.foldl (fun (n, inside) c =>
    let blank := c == 0x20 || (0x09 ≤ c && c ≤ 0x0d)
    (if !blank && !inside then n + 1 else n, !blank)) ((0 : Nat), false)).1

def padLeft (width : Nat) (s : String) : String :=
  String.ofList (List.replicate (width - s.length) ' ') ++ s

def wc : Utility := withOptions "wc" "lwcm" "" 1 fun o => do
  let (sources, complete) ← contents "wc" o.operands id
  let all := o.flags.isEmpty
  let counts (b : Bytes) : List Nat :=
    (if all || o.has 'l' then [b.count 0x0a] else []) ++
    (if all || o.has 'w' then [wordCount b] else []) ++
    (if o.has 'm' then [b.length] else []) ++
    (if all || o.has 'c' then [b.length] else [])
  let size := sources.foldl (fun n e => n + e.2.length) 0
  let width := if o.operands.length ≤ 1 && (counts []).length = 1 then 1
    else if o.operands.isEmpty || o.operands.contains "-" then 7
    else (toString size).length
  let shown (b : List Nat) : String := " ".intercalate (b.map fun n => padLeft width (toString n))
  for (path, b) in sources do
    Flow.printLine (shown (counts b) ++ if o.operands.isEmpty then "" else " " ++ path)
  if 1 < o.operands.length then
    let sums := (counts []).zipIdx.map fun (_, i) =>
      sources.foldl (fun n e => n + ((counts e.2)[i]?).getD 0) 0
    Flow.printLine (shown sums ++ " total")
  return if complete then 0 else 1

def seq : Utility := fun args => do
  let numbers := args.map fun a => a.toInt?
  let (first, step, last) := match numbers with
    | [some l] => (1, 1, l)
    | [some f, some l] => (f, 1, l)
    | [some f, some s, some l] => (f, s, l)
    | _ => ((1 : Int), (1 : Int), (0 : Int))
  if numbers.any Option.isNone then
    let bad := (args.find? fun a => a.toInt?.isNone).getD ""
    misuse "seq" ("invalid floating point argument: '" ++ bad ++ "'") 1
  else if args.isEmpty then misuse "seq" "missing operand" 1
  else if step = 0 then
    misuse "seq" ("invalid Zero increment value: '" ++ args[1]?.getD "" ++ "'") 1
  else
    let n := if 0 < step then last - first else first - last
    let count := if n < 0 then 0 else n.natAbs / step.natAbs + 1
    for i in List.range count do Flow.printLine (toString (first + step * (i : Int)))
    return 0

def closedLine (l : Bytes) : Bytes := if l.getLast? = some 0x0a then l else l ++ [0x0a]

def leadingNumber (l : Bytes) : Int :=
  let cs := (Text.decodeLossy l).toList.dropWhile (· = ' ')
  let (negative, cs) := match cs with
    | '-' :: rest => (true, rest)
    | cs => (false, cs)
  let n := (decimalValue (cs.takeWhile Char.isDigit) : Int)
  if negative then -n else n

def sort : Utility := withOptions "sort" "rnu" "" 2 fun o => do
  let (sources, complete) ← contents "sort" o.operands fun p => "cannot read: " ++ p
  let lines := (sources.flatMap fun (_, b) => linesOf b).map closedLine
  let before (a b : Bytes) : Bool :=
    if o.has 'n' && leadingNumber a ≠ leadingNumber b then
      decide (leadingNumber a ≤ leadingNumber b)
    else decide (a ≤ b)
  let sorted := lines.mergeSort before
  let sorted := if o.has 'u' then sorted.eraseReps else sorted
  for l in if o.has 'r' then sorted.reverse else sorted do Flow.print l
  return if complete then 0 else 2

def runsOf : List Bytes → List (Bytes × Nat)
  | [] => []
  | l :: rest =>
    match runsOf rest with
    | (m, n) :: more => if l = m then (m, n + 1) :: more else (l, 1) :: (m, n) :: more
    | [] => [(l, 1)]

def uniq : Utility := withOptions "uniq" "cdu" "" 1 fun o => do
  let (sources, complete) ← contents "uniq" (o.operands.take 1) id
  for (l, n) in runsOf ((sources.flatMap fun (_, b) => linesOf b).map closedLine) do
    if (o.has 'd' && n < 2) || (o.has 'u' && 1 < n) then pure ()
    else
      if o.has 'c' then Flow.printText (padLeft 7 (toString n) ++ " ")
      Flow.print l
  return if complete then 0 else 1

/-- The bytes of a set: ranges, escapes and a few classes. -/
def setOf : Nat → List UInt8 → List UInt8
  | 0, _ => []
  | _, [] => []
  | fuel + 1, a :: rest =>
    match rest with
    | 0x2d :: b :: more =>
      (List.range (b.toNat + 1 - a.toNat)).map (fun n => (a.toNat + n).toUInt8) ++ setOf fuel more
    | _ => a :: setOf fuel rest

/-- The bytes of the digits and letters between two characters. -/
def between (a b : Char) : String :=
  String.ofList ((List.range (b.toNat + 1 - a.toNat)).map fun n => Char.ofNat (a.toNat + n))

def namedSet (s : String) : List UInt8 :=
  let s := s.replace "[:upper:]" (between 'A' 'Z')
  let s := s.replace "[:lower:]" (between 'a' 'z')
  let s := s.replace "[:digit:]" (between '0' '9')
  let s := s.replace "[:alpha:]" (between 'A' 'Z' ++ between 'a' 'z')
  let s := s.replace "[:space:]" "\\t\\n\\v\\f\\r "
  let b := (unescapeText false s).bytes
  setOf (b.length + 1) b

def tr : Utility := withOptions "tr" "dsc" "" 1 fun o => do
  let input ← Flow.readAll 0
  let sets := o.operands.map namedSet
  let first := sets.headD []
  let holds (c : UInt8) : Bool := first.contains c != o.has 'c'
  let squeeze (set : List UInt8) (b : Bytes) : Bytes :=
    (runsOf (b.map fun c => [c])).flatMap fun (c, n) =>
      if c.all set.contains then c else (List.replicate n c).flatten
  match o.operands with
  | [] => misuse "tr" "missing operand" 1
  | _ =>
    if o.has 'd' then
      Flow.print (input.filter fun c => !holds c)
      return 0
    match sets with
    | [_] =>
      if o.has 's' then
        Flow.print (squeeze first input)
        return 0
      misuse "tr" ("missing operand after '" ++ o.operands.headD "" ++ "'") 1
    | _ =>
      let second := (sets[1]?).getD []
      let last := second.getLastD 0
      let out := input.map fun c =>
        if !holds c then c
        else if o.has 'c' then last
        else (second[first.idxOf c]?).getD last
      Flow.print (if o.has 's' then squeeze second out else out)
      return 0

/-- The positions that a list such as `1,3-4` names, as ranges. -/
def positions (s : String) : List (Nat × Nat) :=
  (s.splitOn ",").map fun part =>
    match part.splitOn "-" with
    | [a] => (a.toNat?.getD 0, a.toNat?.getD 0)
    | a :: b :: _ => (a.toNat?.getD 1, b.toNat?.getD 1000000)
    | [] => (0, 0)

def cut : Utility := withOptions "cut" "s" "dfcb" 1 fun o => do
  let (sources, complete) ← contents "cut" o.operands id
  let wanted := positions (((o.value? 'f').orElse fun _ => (o.value? 'c').orElse fun _ =>
    o.value? 'b').getD "")
  let keep {α : Type} (xs : List α) : List α :=
    (xs.zipIdx.filter fun (_, i) => wanted.any fun (a, b) => a ≤ i + 1 && i + 1 ≤ b).map (·.1)
  for line in sources.flatMap fun (_, b) => linesOf b do
    let text := Text.decodeLossy (line.filter (· != 0x0a))
    if (o.value? 'f').isSome then
      let mark := (o.value? 'd').getD "\t"
      let parts := text.splitOn mark
      if 1 < parts.length then Flow.printLine (mark.intercalate (keep parts))
      else if !o.has 's' then Flow.printLine text
    else Flow.printLine (String.ofList (keep text.toList))
  return if complete then 0 else 1

def tee : Utility := withOptions "tee" "a" "" 1 fun o => do
  let input ← Flow.readAll 0
  Flow.print input
  forEach o.operands fun path => do
    let m ← get
    let old ← if o.has 'a' then (fun b => b.toOption.getD []) <$> contentOf path else pure []
    match ← Flow.change fun t => do t.writeFile (← m.place? path) (.bytes (old ++ input)) with
    | .ok () => return true
    | .error r => refuse "tee" path r

def printenv : Utility := fun args => do
  let env := (← get).environment
  if args.isEmpty then
    for (n, v) in env do Flow.printLine (n ++ "=" ++ v)
    return 0
  forEach args fun name => do
    match env.lookup name with
    | some v =>
      Flow.printLine v
      return true
    | none => return false

def lastComponent (s : String) : String :=
  let p := (splitSlashes s.toList).filter fun cs => !cs.isEmpty
  match p.getLast? with
  | some cs => String.ofList cs
  | none => if s.isEmpty then "" else "/"

def basename : Utility := withOptions "basename" "az" "s" 1 fun o => do
  match o.operands with
  | [] => misuse "basename" "missing operand" 1
  | [path] =>
    Flow.printLine (lastComponent path)
    return 0
  | [path, suffix] =>
    let name := lastComponent path
    Flow.printLine (if name ≠ suffix && name.endsWith suffix then
      String.ofList (name.toList.take (name.length - suffix.length)) else name)
    return 0
  | _ :: _ :: extra :: _ => misuse "basename" ("extra operand '" ++ extra ++ "'") 1

def directoryName (s : String) : String :=
  let trimmed := (s.toList.reverse.dropWhile (· = '/')).dropWhile (· ≠ '/')
  let rest := trimmed.dropWhile (· = '/')
  if rest.isEmpty then if s.startsWith "/" then "/" else "." else String.ofList rest.reverse

def dirname : Utility := withOptions "dirname" "z" "" 1 fun o => do
  if o.operands.isEmpty then misuse "dirname" "missing operand" 1
  else
    for path in o.operands do Flow.printLine (directoryName path)
    return 0

/-- A time to wait, in nanoseconds; nothing for a text that is none. Time without end is `none`. -/
def interval? (s : String) : Option (Option Nat) :=
  let (cs, unit) : List Char × Nat := match s.toList.getLast? with
    | some 's' => (s.toList.dropLast, 1)
    | some 'm' => (s.toList.dropLast, 60)
    | some 'h' => (s.toList.dropLast, 3600)
    | some 'd' => (s.toList.dropLast, 86400)
    | _ => (s.toList, 1)
  match Number.parseFloat (String.ofList cs) with
  | some (.infinite false) => some none
  | some x => match x.ratio? with
    | some (n, d) => if n < 0 then none else some (some (n.toNat * unit * 1000000000 / d))
    | none => none
  | none => none

def sleep : Utility := fun args => do
  if args.isEmpty then misuse "sleep" "missing operand" 1
  else match args.find? fun a => (interval? a).isNone with
    | some bad => misuse "sleep" ("invalid time interval '" ++ bad ++ "'") 1
    | none =>
      for a in args do
        match interval? a with
        | some (some n) => Flow.pass n
        | _ => throw .expired
      return 0

/-- How much of an endless output is made for the reader of a pipe. -/
def endlessOutput : Nat := 100000

def yes : Utility := fun args => do
  let line := Text.encode (" ".intercalate (if args.isEmpty then ["y"] else args) ++ "\n")
  match (← get).streams.get? 1 with
  | some (.buffer id) =>
    if id < 3 then throw .expired
    Flow.print (List.replicate (endlessOutput / line.length) line).flatten
    return 0
  | _ => throw .expired

def sha256sum : Utility := withOptions "sha256sum" "bt" "" 1 fun o => do
  let (sources, complete) ← contents "sha256sum" o.operands id
  for (path, b) in sources do
    Flow.printLine (Text.hexText (Sha256.digest b) ++ "  " ++ path)
  return if complete then 0 else 1

def ofTexts : List (String × Utility) := [
  ("cat", cat), ("head", head), ("tail", tail), ("wc", wc), ("seq", seq), ("sort", sort),
  ("uniq", uniq), ("tr", tr), ("cut", cut), ("tee", tee), ("printenv", printenv),
  ("basename", basename), ("dirname", dirname), ("sleep", sleep), ("yes", yes),
  ("sha256sum", sha256sum)]

end Conveyor.Shell.Utility
