import Conveyor.Pipeline.Basic
import Conveyor.Text.Quoted
import Conveyor.Trigger
import Conveyor.Value.Merge

/-!
What can be wrong with a definition, and how it is said.
-/

namespace Conveyor

open Conveyor.Text

inductive ReferenceKind
  | stage
  | template
  | other (word : String)
  deriving DecidableEq, Repr

def ReferenceKind.word : ReferenceKind → String
  | .stage => "stage"
  | .template => "template"
  | .other w => w

structure UndefinedReference where
  job : String
  kind : ReferenceKind
  name : String
  known : List String
  deriving DecidableEq, Repr

def UndefinedReference.message (r : UndefinedReference) : String :=
  let known := sortedTexts r.known
  "Job '" ++ r.job ++ "' references undefined " ++ r.kind.word ++ " '" ++ r.name ++ "'" ++
    if known.isEmpty then "" else ". Known " ++ r.kind.word ++ "s: " ++ quotedList known

inductive DefinitionError
  | invalidYaml (detail : String)
  | notFound (path : String)
  | unreadable (path reason : String)
  | rootNotMapping (typeName : String)
  | defaultNotMapping
  | blockNotMapping (name typeName : String)
  | badTemplates (block : String)
  | templateCycle (chain : List String)
  | stagesNotTexts
  | repeatedStages (names : List String)
  | repeatedJob (name : String)
  | variablesNotMapping (place : String)
  | variableNotScalar (place key : String)
  | badCommand (job field : String)
  | badCommands (job field : String)
  | badTextList (job field : String)
  | cacheNotMapping (job : String)
  | badCacheKey (job : String)
  | badPolicy (job word : String)
  | rulesWithLists (job : String)
  | rulesNotList (job : String)
  | ruleNotMapping (job : String)
  | unsupportedRule (job condition : String)
  | noScript (job : String)
  | badAllowFailure (job : String)
  deriving DecidableEq, Repr

def policyChoices : String := quotedList (SavePolicy.known.map (·.word))

namespace DefinitionError

private def ofJob (job text : String) : String := "Job '" ++ job ++ "': " ++ text

def message : DefinitionError → String
  | .invalidYaml detail => "Invalid YAML: " ++ detail
  | .notFound path => "Pipeline definition not found: " ++ path
  | .unreadable path reason => "Could not read pipeline definition " ++ path ++ ": " ++ reason
  | .rootNotMapping t => "Pipeline definition root must be a mapping, got " ++ t
  | .defaultNotMapping => "'default' must be a mapping"
  | .blockNotMapping name t => "Block '" ++ name ++ "' must be a mapping, got " ++ t
  | .badTemplates block =>
    "Block '" ++ block ++ "': 'extends' must be a string or a list of strings"
  | .templateCycle chain => "Circular 'extends' chain: " ++ " -> ".intercalate chain
  | .stagesNotTexts => "'stages' must be a list of stage names"
  | .repeatedStages names => "Duplicate stage names: " ++ quotedList names
  | .repeatedJob name => "Duplicate job name: " ++ name
  | .variablesNotMapping place => place ++ ": 'variables' must be a mapping"
  | .variableNotScalar place key => place ++ ": variable '" ++ key ++ "' must be a scalar"
  | .badCommand job field => ofJob job ("'" ++ field ++ "' entries must be strings")
  | .badCommands job field => ofJob job ("'" ++ field ++ "' must be a string or a list of strings")
  | .badTextList job field => ofJob job ("'" ++ field ++ "' must be a list of strings")
  | .cacheNotMapping job => ofJob job "'cache' must be a mapping"
  | .badCacheKey job => ofJob job "'cache.key' must be a string or a mapping"
  | .badPolicy job word =>
    ofJob job ("'cache.when' must be one of " ++ policyChoices ++ ", got '" ++ word ++ "'")
  | .rulesWithLists job => ofJob job "'rules' cannot be combined with 'only'/'except'"
  | .rulesNotList job => ofJob job "'rules' must be a list"
  | .ruleNotMapping job => ofJob job "each rule must be a mapping"
  | .unsupportedRule job condition =>
    ofJob job ("unsupported rule '" ++ condition ++
      "'. Only '$CI_PIPELINE_SOURCE == \"<kind>\"' is supported")
  | .noScript job => "Job '" ++ job ++ "' must define a non-empty 'script'"
  | .badAllowFailure job => ofJob job "'allow_failure' must be true or false"

end DefinitionError

/-- A value that a definition file spells but that does not exist. -/
inductive ScalarFault
  | impossibleDate
  | malformedNumber
  | emptyNumber
  | unknownTruthValue
  | malformedDate
  | noSuchCharacter
  | characterOutOfRange
  deriving DecidableEq, Repr

inductive LoadError
  | definition (e : DefinitionError)
  | reference (r : UndefinedReference)
  | merge (e : MergeError)
  | value (f : ScalarFault)
  deriving Repr

instance : Coe DefinitionError LoadError := ⟨.definition⟩

end Conveyor
