import Conveyor.Pipeline.Error
import Conveyor.Value.Text

/-!
The fields of a job, from untyped values to their types.
-/

namespace Conveyor

open Conveyor.Text

namespace Field

/-- A field that holds a text or a list of texts and whole numbers. -/
def textList (job field : String) : Value → Except LoadError (List String)
  | .null => .ok []
  | .str s => .ok [s]
  | .list items =>
    match items.mapM fun
      | .scalar (.str s) => some s
      | .scalar (.int i) => some (Value.int i).text
      | .scalar (.bool b) => some (Value.bool b).text
      | _ => none with
    | some texts => .ok texts
    | none => .error (DefinitionError.badTextList job field)
  | _ => .error (DefinitionError.badTextList job field)

/-- The commands that one item of a command list stands for; lists inside the list are flattened. -/
def commandsOfItem? : Value → Option (List String)
  | .list items => some (items.map Value.text)
  | .scalar (.str s) => some [s]
  | .scalar (.bool b) => some [(Value.bool b).text]
  | .scalar (.int i) => some [(Value.int i).text]
  | .scalar (.float x) => some [(Value.float x).text]
  | _ => none

def commands (job field : String) : Value → Except LoadError (List String)
  | .null => .ok []
  | .str s => .ok [s]
  | .list items =>
    match items.mapM commandsOfItem? with
    | some groups => .ok groups.flatten
    | none => .error (DefinitionError.badCommand job field)
  | _ => .error (DefinitionError.badCommands job field)

/-- The value of a variable; the long form of a variable holds it in a field of its own. -/
def variableValue : Value → Value
  | .mapping entries => Fields.field entries "value"
  | v => v

def variableText (place key : String) (v : Value) : Except LoadError String :=
  match variableValue v with
  | .list _ | .mapping _ | .loop _ => .error (DefinitionError.variableNotScalar place key)
  | .null => .ok ""
  | v => .ok v.text

def bindings (place : String) : Value → Except LoadError Variables
  | .null => .ok []
  | .mapping entries => do
    let texts ← entries.mapM fun (k, v) => do
      return (k.text, ← variableText place k.text v)
    return Variables.ofTexts texts
  | _ => .error (DefinitionError.variablesNotMapping place)

def stages (v : Value) : Except LoadError (List Stage) := do
  let names ← match v with
    | .null => .ok defaultStages
    | .list items =>
      match items.mapM fun | .str s => some s | _ => none with
      | some names => .ok names
      | none => .error (LoadError.definition .stagesNotTexts)
    | _ => .error (LoadError.definition .stagesNotTexts)
  match repeatedNames names with
  | [] => return Stage.number names
  | repeated => throw (.definition (.repeatedStages repeated))

def policy (job : String) (v : Value) : Except LoadError SavePolicy :=
  if v.isTruthy then
    match SavePolicy.ofWord v.text with
    | .unknown w => .error (DefinitionError.badPolicy job w)
    | p => .ok p
  else .ok .onSuccess

def cache (job : String) : Value → Except LoadError (Option CacheSpec)
  | .null => .ok none
  | .mapping entries => do
    let raw : Fields := entries
    let (files, scope, literal) ← match raw.field "key" with
      | .mapping parts =>
        let key : Fields := parts
        let files ← textList job "cache.key.files" (key.field "files")
        match key.field "prefix" with
        | .null => pure (files, none, none)
        | v => pure (files, some v.text, none)
      | .null => pure ([], none, none)
      | .scalar (.str s) => pure ([], none, some s)
      | .scalar (.int i) => pure ([], none, some (Value.int i).text)
      | .scalar (.bool b) => pure ([], none, some (Value.bool b).text)
      | _ => throw (.definition (.badCacheKey job))
    let when ← policy job (raw.field "when")
    let paths ← textList job "cache.paths" (raw.field "paths")
    return some ⟨files, scope, paths, when, literal⟩
  | _ => .error (DefinitionError.cacheNotMapping job)

/-- The kinds of an event list, which may stand in a field of its own. -/
def kinds (job field : String) : Value → Except LoadError (List String)
  | .mapping entries => textList job field (Fields.field entries "refs")
  | v => textList job field v

/-- The kind that a condition on the event source compares with. -/
def sourceCondition? (text : String) : Option String :=
  let isQuote (c : Char) : Bool := c = '\x22' || c = '\x27'
  let skip (cs : List Char) : List Char := cs.dropWhile isBlank
  let name := "$CI_PIPELINE_SOURCE".toList
  let cs := skip text.toList
  if name.isPrefixOf cs then
    match skip (cs.drop name.length) with
    | '=' :: '=' :: rest =>
      match skip rest with
      | opening :: rest =>
        let kind := rest.takeWhile fun c => !isQuote c
        match rest.drop kind.length with
        | closing :: rest =>
          if isQuote opening && isQuote closing && !kind.isEmpty && rest.all isBlank then
            some (String.ofList kind)
          else none
        | [] => none
      | [] => none
    | _ => none
  else none

/-- One entry of a rule list: the kind it is for, if it names one, and whether it excludes. -/
structure Rule where
  kind : Option String
  never : Bool
  deriving DecidableEq, Repr

def rule (job : String) : Value → Except LoadError Rule
  | .mapping entries =>
    let fields : Fields := entries
    let never := match fields.field "when" with
      | .str s => s == "never"
      | _ => false
    match fields.field "if" with
    | .null => .ok ⟨none, never⟩
    | v =>
      match sourceCondition? v.text with
      | some kind => .ok ⟨some kind, never⟩
      | none => .error (DefinitionError.unsupportedRule job v.text)
  | _ => .error (DefinitionError.ruleNotMapping job)

/-- A kind that no event has: the rule that allows only it never lets a job run. -/
def neverKind : String := "<never>"

/-- The trigger of the kinds that were decided, where no rule decides the rest. -/
def closedTrigger (allowed excluded : List String) : TriggerRule :=
  if allowed.isEmpty then ⟨[neverKind], []⟩ else .ofKinds allowed excluded

/-- Compiles rules, of which the first that fits an event decides, into a trigger. Rules after one
without a condition are not read. -/
def compileRules (job : String) (allowed excluded : List String) :
    List Value → Except LoadError TriggerRule
  | [] => .ok (closedTrigger allowed excluded)
  | v :: rest => do
    match ← rule job v with
    | ⟨none, true⟩ => return closedTrigger allowed excluded
    | ⟨none, false⟩ => return .ofKinds [] excluded
    | ⟨some kind, never⟩ =>
      let kind := Kind.canonical kind
      if allowed.contains kind || excluded.contains kind then
        compileRules job allowed excluded rest
      else if never then compileRules job allowed (excluded ++ [kind]) rest
      else compileRules job (allowed ++ [kind]) excluded rest

/-- When a job runs: a list of rules, or lists of allowed and excluded kinds. -/
def trigger (job : String) (fields : Fields) : Except LoadError (Option TriggerRule) :=
  match fields.field "rules", fields.field "only", fields.field "except" with
  | .null, only, except => do
    let allowed ← kinds job "only" only
    let excluded ← kinds job "except" except
    if allowed.isEmpty && excluded.isEmpty then return none
    else return some (.ofKinds allowed excluded)
  | rules, .null, .null =>
    match rules with
    | .list items => some <$> compileRules job [] [] items
    | _ => .error (DefinitionError.rulesNotList job)
  | _, _, _ => .error (DefinitionError.rulesWithLists job)

def allowFailure (job : String) : Option Value → Except LoadError Bool
  | none => .ok false
  | some (.bool b) => .ok b
  | some _ => .error (DefinitionError.badAllowFailure job)

end Field

end Conveyor
