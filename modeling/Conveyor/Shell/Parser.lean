import Conveyor.Shell.Scanner

/-!
Statements of a script. A script is read line by line, so that what stands before a line with a
mistake still runs.
-/

namespace Conveyor.Shell

/-- Words that mean something where a command may start. -/
def reservedWords : List String :=
  ["if", "then", "else", "elif", "fi", "while", "until", "do", "done", "for", "in", "case", "esac",
    "\x7b", "\x7d", "!"]

/-- Reserved words and operators at which a list of statements ends. -/
def endingTokens : List String :=
  [")", ";;", "do", "done", "elif", "else", "esac", "fi", "then", "\x7d"]

/-- Commands of the shell whose names no function may take. -/
def protectedNames : List String :=
  ["break", "continue", "eval", "exec", "exit", "export", "local", "readonly", "return", "set",
    "shift", "times", "trap", "unset"]

def shownToken (s : String) : String := "\x22" ++ s ++ "\x22"

namespace Scan

/-- The reserved word or operator ahead, or nothing where an ordinary word or the end is ahead. -/
def ahead : Scan (Option String) := do
  skip
  let s ← get
  match s.rest with
  | [] => return none
  | c :: _ =>
    if c = '\n' then return some "newline"
    for op in ["&&", "||", ";;", "<<", ">>", "&", "|", ";", "(", ")", "<", ">"] do
      if op.toList.isPrefixOf s.rest then return some op
    match (word?).run s with
    | .ok (some w, _) =>
      match plainText? w with
      | some t => return if reservedWords.contains t then some t else none
      | none => return none
    | _ => return none

def shownAhead : Scan String := do
  match ← ahead with
  | some "newline" => return "newline"
  | some t => return if ["<", ">", "<<", ">>"].contains t then "redirection" else shownToken t
  | none => return if (← rest).isEmpty then endOfScript else "word"

def tokenLength (t : String) : Nat := if t = "newline" then 1 else t.length

/-- Refuses the next token. The end of a line counts for the line after it. -/
def unexpected {α : Type} (expecting : Option String) : Scan α := do
  let token ← shownAhead
  if token = "newline" then drop 1
  fail (.unexpected token (expecting.map shownToken))

def takeToken (t : String) : Scan Bool := do
  if (← ahead) = some t then
    drop (tokenLength t)
    return true
  else return false

def expect (t : String) : Scan Unit := do
  if !(← takeToken t) then unexpected (some t)

/-- Takes an operator where reserved words count as plain ones. -/
def expectOperator (t : String) : Scan Unit := do
  if !(← takeToken t) then
    match ← ahead with
    | some other =>
      if reservedWords.contains other then fail (.unexpected "word" (some (shownToken t)))
      else unexpected (some t)
    | none => unexpected (some t)

def skipLines : Nat → Scan Unit
  | 0 => pure ()
  | fuel + 1 => do if ← takeToken "newline" then skipLines fuel

def lineBreak : Scan Unit := do skipLines ((← rest).length + 1)

/-- A word that must be there. -/
def needWord : Scan Word := do
  match ← word? with
  | some w => return w
  | none => unexpected none

/-- The number in front of a redirection. -/
def streamNumber : Scan (Option Nat) := do
  skip
  match ← rest with
  | d :: c :: _ =>
    if d.isDigit && (c = '<' || c = '>') then
      drop 1
      return some (d.toNat - 0x30)
    else return none
  | _ => return none

/-- Takes the lines of a document inside the script, up to the line that ends it or the end of the
script. -/
def hereLines (ending : String) (dropTabs : Bool) : Nat → List Char → List Char × List Char
  | 0, cs => ([], cs)
  | fuel + 1, cs =>
    if cs.isEmpty then ([], [])
    else
      let line := cs.takeWhile (· ≠ '\n')
      let lineEnd := (cs.drop line.length).take 1
      let after := cs.drop (line.length + 1)
      let line := if dropTabs then line.dropWhile (· = '\t') else line
      if String.ofList line = ending then ([], after)
      else
        let (more, after) := hereLines ending dropTabs fuel after
        (line ++ lineEnd ++ more, after)

/-- The text that a word spells when its quotes are taken off, and whether it has any. -/
def unquote (w : Word) : String × Bool :=
  (String.join (w.map fun | .text s _ => s | _ => ""),
    w.any fun | .text _ q => q | _ => false)

/-- The document inside the script that a word names; it starts on the next line. -/
def hereDocument (name : Word) (dropTabs : Bool) : Scan Word := do
  let s ← get
  let sameLine := s.rest.takeWhile (· ≠ '\n')
  let after := s.rest.drop (sameLine.length + 1)
  let (ending, isQuoted) := unquote name
  let (body, next) := hereLines ending dropTabs (after.length + 1) after
  let taken := (after.take (after.length - next.length)).count '\n'
  let documentLines := s.documentLines + taken
  set { s with rest := sameLine ++ '\n' :: next, documentLines }
  if isQuoted then return [.text (String.ofList body) true]
  let line := s.line + s.documentLines + 1
  match (readParts (2 * body.length + 4) .document).run { rest := body, line } with
  | .ok (parts, _) => return parts
  | .error (_, e) => fail e

def redirect? : Scan (Option Redirect) := do
  let s ← get
  let given ← streamNumber
  let redirectTo (kind : RedirectKind) (standard : Nat) : Scan (Option Redirect) := do
    return some ⟨given.getD standard, kind, ← needWord⟩
  if ← take ['>', '>'] then redirectTo .append 1
  else if ← take ['>', '&'] then redirectTo .duplicate 1
  else if ← take ['>', '|'] then redirectTo .write 1
  else if ← take ['>'] then redirectTo .write 1
  else if ← take ['<', '<'] then
    let dropTabs ← take ['-']
    let name ← needWord
    return some ⟨given.getD 0, .here, ← hereDocument name dropTabs⟩
  else if ← take ['<', '&'] then redirectTo .duplicate 0
  else if ← take ['<'] then redirectTo .read 0
  else
    set s
    return none

def words : Nat → Scan (List Word)
  | 0 => return []
  | fuel + 1 => do
    match ← word? with
    | some w => return w :: (← words fuel)
    | none => return []

def redirects : Nat → Scan (List Redirect)
  | 0 => return []
  | fuel + 1 => do
    match ← redirect? with
    | some r => return r :: (← redirects fuel)
    | none => return []

/-- A word that sets a variable: its name and the value. -/
def assignment? (w : Word) : Option (String × Word) :=
  match w with
  | .text s false :: more =>
    let cs := s.toList
    let name := cs.takeWhile (· ≠ '=')
    if name.length < cs.length && isName name then
      let value := cs.drop (name.length + 1)
      let parts := if value.isEmpty then more else .text (String.ofList value) false :: more
      some (String.ofList name, parts)
    else none
  | _ => none

/-- The words and redirections of a simple command. -/
def simpleParts : Nat → List (String × Word) → List Word → List Redirect →
    Scan (List (String × Word) × List Word × List Redirect)
  | 0, as, ws, rs => return (as.reverse, ws.reverse, rs.reverse)
  | fuel + 1, as, ws, rs => do
    match ← redirect? with
    | some r => simpleParts fuel as ws (r :: rs)
    | none =>
      match ← word? with
      | none => return (as.reverse, ws.reverse, rs.reverse)
      | some w =>
        match assignment? w with
        | some a =>
          if ws.isEmpty then simpleParts fuel (a :: as) ws rs else simpleParts fuel as (w :: ws) rs
        | none => simpleParts fuel as (w :: ws) rs

end Scan

open Scan

/-- What separates a statement from the next: the statement, and whether more may follow. -/
def readSeparator (first : Statement) : Scan (Statement × Bool) := do
  if ← takeToken ";" then return (first, true)
  else if ← takeToken "&" then return (.background first, true)
  else if ← takeToken "newline" then return (first, true)
  else return (first, false)

mutual

/-- Reads statements up to a token that ends them or the end. -/
def readList : Nat → Bool → Scan Statement
  | 0, _ => unexpected none
  | fuel + 1, mayBeEmpty => do
    lineBreak
    match ← ahead with
    | some t => if mayBeEmpty && endingTokens.contains t then return .empty
    | none => if (← rest).isEmpty then return .empty
    let first ← readAndOr fuel
    let first ← readSeparator first
    match first with
    | (first, true) => return .sequence first (← readList fuel true)
    | (first, false) => return first

/-- Refuses a word with a command inside it whose script is not well formed. -/
def checkWord : Nat → Word → Scan Unit
  | 0, _ => pure ()
  | fuel + 1, w => do
    for part in w do
      match part with
      | .text _ _ => pure ()
      | .parameter _ _ _ inner _ => checkWord fuel inner
      | .arithmetic inner _ => checkWord fuel inner
      | .command script .brackets line _ =>
        let s ← get
        set { s with rest := script.toList ++ [')'], line }
        let _ ← readList fuel true
        expect ")"
        set s
      | .command script .backquotes line _ =>
        let s ← get
        set { s with rest := script.toList, line }
        let _ ← readList fuel true
        set s

def readAndOr : Nat → Scan Statement
  | 0 => unexpected none
  | fuel + 1 => do readAndOrAfter fuel (← readPipeline fuel)

def readAndOrAfter : Nat → Statement → Scan Statement
  | 0, first => return first
  | fuel + 1, first => do
    if ← takeToken "&&" then
      lineBreak
      readAndOrAfter fuel (.both first (← readPipeline fuel))
    else if ← takeToken "||" then
      lineBreak
      readAndOrAfter fuel (.either first (← readPipeline fuel))
    else return first

def readPipeline : Nat → Scan Statement
  | 0 => unexpected none
  | fuel + 1 => do
    let isNegated ← takeToken "!"
    let parts ← readParallel fuel
    let pipeline := match parts with
      | [one] => one
      | many => .pipeline many
    return if isNegated then .negation pipeline else pipeline

def readParallel : Nat → Scan (List Statement)
  | 0 => unexpected none
  | fuel + 1 => do
    let first ← readCommand fuel
    if ← takeToken "|" then
      lineBreak
      return first :: (← readParallel fuel)
    else return [first]

def readCommand : Nat → Scan Statement
  | 0 => unexpected none
  | fuel + 1 => do
    let compound (body : Statement) : Scan Statement := do
      let rs ← redirects ((← rest).length + 1)
      for r in rs do checkWord fuel r.target
      return if rs.isEmpty then body else .redirected body rs
    match ← ahead with
    | some "(" =>
      expect "("
      let body ← readList fuel false
      expect ")"
      compound (.subshell body)
    | some "\x7b" =>
      expect "\x7b"
      let body ← readList fuel false
      expect "\x7d"
      compound body
    | some "if" =>
      expect "if"
      compound (← readConditional fuel)
    | some "while" =>
      expect "while"
      compound (← readLoop fuel false)
    | some "until" =>
      expect "until"
      compound (← readLoop fuel true)
    | some "for" =>
      expect "for"
      compound (← readFor fuel)
    | some "case" =>
      expect "case"
      let subject ← needWord
      checkWord fuel subject
      lineBreak
      expect "in"
      let branches ← readBranches fuel
      expect "esac"
      compound (.choice subject branches)
    | some t =>
      if ["<", ">", ">>", "<<"].contains t then readSimple fuel else unexpected none
    | none => readSimple fuel

/-- Reads a simple command, or the definition of a function. A command counts as standing on the line
where its first word ends. -/
def readSimple : Nat → Scan Statement
  | 0 => unexpected none
  | fuel + 1 => do
    let s ← get
    let line := match (word?).run s with
      | .ok (_, next) => next.line
      | .error _ => s.line
    let (as, ws, rs) ← simpleParts ((← rest).length + 1) [] [] []
    if as.isEmpty && ws.isEmpty && rs.isEmpty then unexpected none
    for w in as.map (·.2) ++ ws ++ rs.map (·.target) do checkWord fuel w
    match as, ws, rs, ← ahead with
    | [], [w], [], some "(" =>
      expect "("
      expect ")"
      match plainText? w with
      | some name =>
        if !isName name.toList || protectedNames.contains name then fail .badFunctionName
        lineBreak
        return .function name (← readCommand fuel)
      | none => fail .badFunctionName
    | _, _, _, some "(" => unexpected none
    | _, _, _, _ => return .simple line as ws rs

def readConditional : Nat → Scan Statement
  | 0 => unexpected none
  | fuel + 1 => do
    let condition ← readList fuel false
    expect "then"
    let body ← readList fuel false
    if ← takeToken "elif" then return .conditional condition body (← readConditional fuel)
    let otherwise ← if ← takeToken "else" then readList fuel false else pure .empty
    expect "fi"
    return .conditional condition body otherwise

def readLoop : Nat → Bool → Scan Statement
  | 0, _ => unexpected none
  | fuel + 1, stopsOn => do
    let condition ← readList fuel false
    expect "do"
    let body ← readList fuel false
    expect "done"
    return .loop stopsOn condition body

def readFor : Nat → Scan Statement
  | 0 => unexpected none
  | fuel + 1 => do
    match (← word?).bind plainText? with
    | none => fail .badName
    | some name =>
      if !isName name.toList then fail .badName
      lineBreak
      let words ← if ← takeToken "in" then
          let ws ← words ((← rest).length + 1)
          for w in ws do checkWord fuel w
          if !(← takeToken ";") && (← ahead) ≠ some "newline" then unexpected none
          pure (some ws)
        else
          let _ ← takeToken ";"
          pure none
      lineBreak
      expect "do"
      let body ← readList fuel false
      expect "done"
      return .forEach name words body

def readBranches : Nat → Scan (List (List Word × Statement))
  | 0 => unexpected none
  | fuel + 1 => do
    lineBreak
    if (← ahead) = some "esac" then return []
    let _ ← takeToken "("
    let patterns ← readPatterns fuel
    expectOperator ")"
    let body ← readList fuel true
    if (← ahead) = some "esac" then return [(patterns, body)]
    expect ";;"
    return (patterns, body) :: (← readBranches fuel)

def readPatterns : Nat → Scan (List Word)
  | 0 => unexpected none
  | fuel + 1 => do
    let w ← match ← word? with
      | some w => pure w
      | none => do
        drop (((← ahead).map tokenLength).getD 0)
        pure []
    checkWord fuel w
    if ← takeToken "|" then return w :: (← readPatterns fuel) else return [w]

end

def readLine : Nat → Scan Statement
  | 0 => unexpected none
  | fuel + 1 => do
    match ← ahead with
    | some "newline" => return .empty
    | none => if (← rest).isEmpty then return .empty
    | _ => pure ()
    let first ← readAndOr fuel
    if ← takeToken ";" then return .sequence first (← readLine fuel)
    else if ← takeToken "&" then return .sequence (.background first) (← readLine fuel)
    else return first

/-- Reads the next line with statements; nothing at the end of the script. -/
def Scan.line? : Scan (Option Statement) := do
  lineBreak
  let rest ← rest
  if rest.isEmpty then return none
  let s ← readLine (8 * rest.length + 20)
  match ← ahead with
  | some "newline" => return some s
  | none => if (← Scan.rest).isEmpty then return some s else unexpected none
  | some _ => unexpected none

end Conveyor.Shell
