import Conveyor.Shell.Script

/-!
Words of a script: characters up to a blank or an operator, with quotes, parameters, arithmetic and
commands inside them.
-/

namespace Conveyor.Shell

inductive SyntaxError
  | unterminatedQuote
  | unterminatedBackquote
  | missing (closing : String)
  | unexpected (token : String) (expecting : Option String)
  | badName
  | badFunctionName
  deriving DecidableEq, Repr

def SyntaxError.text : SyntaxError → String
  | .unterminatedQuote => "Syntax error: Unterminated quoted string"
  | .unterminatedBackquote => "Syntax error: EOF in backquote substitution"
  | .missing closing => "Syntax error: Missing '" ++ closing ++ "'"
  | .unexpected token expecting =>
    "Syntax error: " ++ token ++ " unexpected" ++
      (expecting.map fun e => " (expecting " ++ e ++ ")").getD ""
  | .badName => "Syntax error: Bad for loop variable"
  | .badFunctionName => "Syntax error: Bad function name"

def endOfScript : String := "end of file"

structure Scanner where
  rest : List Char
  line : Nat := 1
  /-- Lines of documents inside the script that stood before the end of this line. -/
  documentLines : Nat := 0
  deriving Repr

/-- An error and the line where it was met. -/
abbrev Scan (α : Type) := StateT Scanner (Except (Nat × SyntaxError)) α

namespace Scan

def fail {α : Type} (e : SyntaxError) : Scan α := fun s => .error (s.line, e)

def rest : Scan (List Char) := return (← get).rest

def peek : Scan (Option Char) := return (← rest).head?

def drop (n : Nat) : Scan Unit :=
  modify fun s =>
    let ends := (s.rest.take n).count '\n'
    let rest := s.rest.drop n
    if ends = 0 then { s with rest }
    else { rest, line := s.line + ends + s.documentLines }

/-- An error that is met only at the end of the script. -/
def failAtEnd {α : Type} (e : SyntaxError) : Scan α := do
  drop (← rest).length
  fail e

/-- Takes the next characters if they are these. -/
def take (cs : List Char) : Scan Bool := do
  if cs.isPrefixOf (← rest) then
    drop cs.length
    return true
  else return false

def takeWhile (p : Char → Bool) : Scan (List Char) := do
  let cs := (← rest).takeWhile p
  drop cs.length
  return cs

end Scan

def isNameStart (c : Char) : Bool := c.isAlpha || c = '_'

def isNameChar (c : Char) : Bool := c.isAlphanum || c = '_'

def isName (cs : List Char) : Bool :=
  match cs with
  | [] => false
  | c :: rest => isNameStart c && rest.all isNameChar

def endsWord (c : Char) : Bool := " \t\n;&|<>()".toList.contains c

/-- Parameters with a name of one sign. -/
def isSpecial (c : Char) : Bool := "@*#?-$!".toList.contains c

/-- What surrounds a place inside brackets: brackets, choices whose patterns end with a bracket that
opens nowhere, and double quotes, in which brackets count only after a dollar sign. -/
inductive Surrounding
  | bracket
  | choice
  | quotes
  deriving DecidableEq, Repr

/-- What surrounds the place after a character, where quotes and backslashes have been seen to. -/
def surroundingAfter (last : Char) (around : List Surrounding) (c : Char) : List Surrounding :=
  match around, c with
  | .quotes :: more, '\x22' => more
  | around, '\x22' => .quotes :: around
  | .quotes :: more, '(' => if last = '$' then .bracket :: .quotes :: more else .quotes :: more
  | .bracket :: more, '(' => .bracket :: .bracket :: more
  | .bracket :: more, ')' => more
  | around, _ => around

/-- The text up to the closing bracket of what surrounds it, and what follows. -/
def untilClosing : Nat → Char → List Surrounding → List Char → Option (List Char × List Char)
  | 0, _, _, _ => none
  | _, _, _, [] => none
  | fuel + 1, last, around, c :: rest =>
    let goOn (taken rest : List Char) (around : List Surrounding) :
        Option (List Char × List Char) :=
      (untilClosing fuel (taken.getLastD c) around rest).map fun (inner, rest) =>
        (taken ++ inner, rest)
    let inQuotes := around.head? = some .quotes
    if c = '\\' then goOn (c :: rest.take 1) (rest.drop 1) around
    else if c = '\x27' && !inQuotes then
      let quoted := rest.takeWhile (· ≠ '\x27')
      goOn (c :: quoted ++ ['\x27']) (rest.drop (quoted.length + 1)) around
    else if isNameStart c && !inQuotes && !isNameChar last then
      let word := (c :: rest).takeWhile isNameChar
      let around := match String.ofList word, around with
        | "case", around => .choice :: around
        | "esac", .choice :: more => more
        | _, around => around
      goOn word ((c :: rest).drop word.length) around
    else
      match surroundingAfter last around c with
      | [] => some ([], rest)
      | around => goOn [c] rest around

/-- The text up to the two brackets that close arithmetic, and what follows. A single bracket that
closes nothing belongs to the text. -/
def untilArithmeticEnd : Nat → List Char → Option (List Char × List Char)
  | 0, _ => none
  | fuel + 1, cs =>
    match untilClosing (cs.length + 1) ' ' [.bracket] cs with
    | some (inner, ')' :: rest) => some (inner, rest)
    | some (inner, rest) =>
      (untilArithmeticEnd fuel rest).map fun (more, rest) => (inner ++ ')' :: more, rest)
    | none => none

/-- The script between backquotes, where a backslash hides a backquote, a dollar sign or itself,
and between double quotes also a double quote. -/
def untilBackquote (quoted : Bool) : List Char → Option (List Char × List Char)
  | [] => none
  | '\\' :: c :: rest =>
    (untilBackquote quoted rest).map fun (inner, rest) =>
      (if "$\x60\\".toList.contains c || (quoted && c = '\x22') then c :: inner
        else '\\' :: c :: inner, rest)
  | c :: rest =>
    if c = '\x60' then some ([], rest)
    else (untilBackquote quoted rest).map fun (inner, rest) => (c :: inner, rest)

/-- The change that signs after a name in braces ask for, whether it applies to empty values, and
how many characters the signs take. A sign that is not known is taken for the start of a change
after a colon only. -/
def changeAt (cs : List Char) : Change × Bool × Nat :=
  let sign (c : Char) : Option Change :=
    match c with
    | '-' => some .useDefault
    | '=' => some .assignDefault
    | '?' => some .demand
    | '+' => some .alternative
    | _ => none
  match cs with
  | '%' :: '%' :: _ => (.dropEnd true, false, 2)
  | '%' :: _ => (.dropEnd false, false, 1)
  | '#' :: '#' :: _ => (.dropStart true, false, 2)
  | '#' :: _ => (.dropStart false, false, 1)
  | ':' :: c :: _ => match sign c with
    | some change => (change, true, 2)
    | none => (.unknown, false, 2)
  | '\x7d' :: _ => (.keep, false, 0)
  | c :: _ => match sign c with
    | some change => (change, false, 1)
    | none => (.unknown, false, 0)
  | [] => (.unknown, false, 0)

def joinText (c : Char) (quoted : Bool) : List Part → List Part
  | .text s q :: rest =>
    if q = quoted then .text (String.singleton c ++ s) q :: rest
    else .text (String.singleton c) quoted :: .text s q :: rest
  | parts => .text (String.singleton c) quoted :: parts

/-- Where characters stand: outside quotes, between double quotes, inside braces, or in a text of
its own, where quotes are characters like others. -/
inductive Setting
  | plain
  | double
  | document
  | braces (quoted : Bool)
  deriving DecidableEq, Repr

def Setting.isQuoted : Setting → Bool
  | .plain => false
  | .double | .document => true
  | .braces q => q

/-- The characters that a backslash hides between quotes of a setting. -/
def Setting.hidden : Setting → List Char
  | .document => "$\x60\\".toList
  | .double => "$\x60\x22\\".toList
  | _ => "$\x60\x22\\\x7d".toList

/-- The setting ends before a character. -/
def Setting.endsAt (setting : Setting) (c : Char) : Bool :=
  match setting with
  | .plain => endsWord c
  | .double => c = '\x22'
  | .document => false
  | .braces _ => c = '\x7d'

def parameterName (cs : List Char) : List Char :=
  match cs with
  | c :: rest =>
    if isNameStart c then c :: rest.takeWhile isNameChar
    else if c.isDigit then c :: rest.takeWhile Char.isDigit
    else if isSpecial c then [c]
    else []
  | [] => []

mutual

/-- Reads parts up to the end of their setting, which stays in front. -/
def readParts : Nat → Setting → Scan (List Part)
  | 0, _ => Scan.fail (.unexpected endOfScript none)
  | fuel + 1, setting => do
    let quoted := setting.isQuoted
    match ← Scan.rest with
    | [] => match setting with
      | .plain | .document => return []
      | .double | .braces true => Scan.fail .unterminatedQuote
      | .braces false => Scan.fail (.missing "\x7d")
    | c :: rest =>
      if setting.endsAt c then return []
      else if c = '\\' then
        match rest with
        | [] =>
          Scan.drop 1
          return joinText c true []
        | d :: _ =>
          Scan.drop 2
          let more ← readParts fuel setting
          if d = '\n' then return more
          else if quoted && !(setting.hidden.contains d) then
            return joinText c true (joinText d true more)
          else return .text "" true :: joinText d true more
      else if c = '\x27' && !quoted then
        let inner := rest.takeWhile (· ≠ '\x27')
        if inner.length = rest.length then Scan.failAtEnd .unterminatedQuote
        Scan.drop (inner.length + 2)
        return .text (String.ofList inner) true :: (← readParts fuel setting)
      else if c = '\x22' && setting ≠ .document then
        Scan.drop 1
        let inner ← readParts fuel .double
        Scan.drop 1
        return .text "" true :: inner ++ (← readParts fuel setting)
      else if c = '\x60' then
        match untilBackquote (setting = .double) rest with
        | none => Scan.failAtEnd .unterminatedBackquote
        | some (script, after) =>
          Scan.drop (1 + rest.length - after.length)
          return .command (String.ofList script) .backquotes 1 quoted :: (← readParts fuel setting)
      else if c = '$' then
        let part ← readDollar fuel quoted
        return part :: (← readParts fuel setting)
      else
        Scan.drop 1
        return joinText c quoted (← readParts fuel setting)

def readDollar : Nat → Bool → Scan Part
  | 0, _ => Scan.fail (.unexpected endOfScript none)
  | fuel + 1, quoted => do
    Scan.drop 1
    let rest ← Scan.rest
    match rest with
    | '(' :: '(' :: inner =>
      match untilArithmeticEnd (inner.length + 1) inner with
      | some (expression, after) =>
        Scan.drop (rest.length - after.length)
        let line := (← get).line
        match (readParts fuel .document).run { rest := expression, line } with
        | .ok (parts, _) => return .arithmetic parts quoted
        | .error (_, e) => Scan.fail e
      | none => Scan.failAtEnd (.missing "))")
    | '(' :: _ => readCommand quoted rest
    | '\x7b' :: inner =>
      let isLength := inner.head? = some '#' && !(parameterName (inner.drop 1)).isEmpty
      let name := parameterName (if isLength then inner.drop 1 else inner)
      Scan.drop (1 + name.length + if isLength then 1 else 0)
      let signs ← Scan.rest
      let (change, whenEmpty, n) :=
        if name.isEmpty then (.unknown, false, 0) else changeAt signs
      Scan.drop n
      let word ← readParts fuel (.braces (quoted && !change.takesPattern))
      Scan.drop 1
      let name := String.ofList name
      if isLength then return .parameter name .length false [] quoted
      return .parameter name change whenEmpty word quoted
    | _ =>
      let name := match parameterName rest with
        | c :: more => if c.isDigit then [c] else c :: more
        | [] => []
      if name.isEmpty then return .text "$" quoted
      Scan.drop name.length
      return .parameter (String.ofList name) .keep false [] quoted
where
  readCommand (quoted : Bool) (rest : List Char) : Scan Part := do
    let inner := rest.drop 1
    match untilClosing (inner.length + 1) ' ' [.bracket] inner with
    | none => Scan.failAtEnd (.unexpected endOfScript (some "\x22)\x22"))
    | some (script, after) =>
      let line := (← get).line
      Scan.drop (rest.length - after.length)
      return .command (String.ofList script) .brackets line quoted

end

def skipBlanks : Nat → Scan Unit
  | 0 => pure ()
  | fuel + 1 => do
    match ← Scan.rest with
    | ' ' :: _ | '\t' :: _ =>
      Scan.drop 1
      skipBlanks fuel
    | '\\' :: '\n' :: _ =>
      Scan.drop 2
      skipBlanks fuel
    | '#' :: _ => let _ ← Scan.takeWhile (· ≠ '\n')
    | _ => pure ()

/-- Skips blanks before a token. -/
def Scan.skip : Scan Unit := do skipBlanks ((← Scan.rest).length + 1)

/-- Reads a word; nothing if none starts here. -/
def Scan.word? : Scan (Option Word) := do
  Scan.skip
  let rest ← Scan.rest
  match rest.head? with
  | none => return none
  | some c =>
    if endsWord c then return none
    else return some (← readParts (2 * rest.length + 2) .plain)

/-- The text of a word that is written without quotes and expansions. -/
def plainText? : Word → Option String
  | [.text s false] => some s
  | _ => none

end Conveyor.Shell
