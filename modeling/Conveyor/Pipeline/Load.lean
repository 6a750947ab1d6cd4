import Conveyor.Pipeline.Field
import Conveyor.Pipeline.Template
import Conveyor.Yaml.Document

/-!
From the top level mapping of a definition to a pipeline. Every key that is not reserved names a
block; the blocks that are no templates are the jobs, over the fields that all jobs start from.
-/

namespace Conveyor

namespace Pipeline

def reservedKeys : List String :=
  ["stages", "variables", "default", "image", "workflow", "include"]

def blocksOf (fields : Fields) : Except LoadError Blocks :=
  fields.foldlM (fun blocks (key, body) =>
    let name := key.text
    if reservedKeys.contains name then .ok blocks
    else match body with
      | .mapping entries => .ok (blocks.put name entries)
      | v => .error (DefinitionError.blockNotMapping name v.typeName)) []

def buildJob (name : String) (fields : Fields) (stageNames templates : List String) :
    Except LoadError Job := do
  let stage :=
    if (fields.field "stage").isTruthy then (fields.field "stage").text else defaultJobStage
  if !stageNames.contains stage then
    throw (.reference ⟨name, .stage, stage, stageNames⟩)
  let script ← Field.commands name "script" (fields.field "script")
  if script.isEmpty then throw (.definition (.noScript name))
  let allowFailure ← Field.allowFailure name (fields.field? "allow_failure")
  let beforeScript ← Field.commands name "before_script" (fields.field "before_script")
  let cache ← Field.cache name (fields.field "cache")
  let trigger ← Field.trigger name fields
  let bindings ← Field.bindings ("Job '" ++ name ++ "'") (fields.field "variables")
  return { name, stage, script, beforeScript, cache, trigger, bindings, templates, allowFailure }

/-- The jobs of the blocks that are no templates, in their order. -/
def buildJobs (defaults : Fields) (blocks : Blocks) (stageNames : List String) :
    List String → Resolved → Except LoadError (List Job)
  | [], _ => .ok []
  | name :: rest, known =>
    if isTemplate name then buildJobs defaults blocks stageNames rest known
    else
      match blocks.resolve name [] known with
      | (.error e, _) => .error e
      | (.ok own, known) => do
        let fields ← Blocks.overlay defaults own
        let templates ← Blocks.templatesOf name ((blocks.get? name).getD [])
        let job ← buildJob name fields stageNames templates
        return job :: (← buildJobs defaults blocks stageNames rest known)

/-- The fields that all jobs start from. -/
def defaultsOf (fields : Fields) : Except LoadError Fields :=
  match fields.field "default" with
  | .mapping entries => .ok entries
  | v => if v.isTruthy then .error (.definition .defaultNotMapping) else .ok []

def ofFields (fields : Fields) : Except LoadError Pipeline := do
  let stages ← Field.stages (fields.field "stages")
  let bindings ← Field.bindings "top-level" (fields.field "variables")
  let defaults ← defaultsOf fields
  let blocks ← blocksOf fields
  let jobs ← buildJobs defaults blocks (stages.map (·.name)) blocks.keys []
  return { stages, jobs, bindings }

/-- Builds the pipeline of a definition text. An empty text defines no jobs. -/
def ofText (text : String) : Except LoadError Pipeline :=
  match Yaml.read text with
  | .error (.grammar c) => .error (.definition (.invalidYaml (c.text text.toList)))
  | .error (.value f) => .error (.value f)
  | .ok .null => ofFields []
  | .ok (.mapping entries) => ofFields entries
  | .ok v => .error (.definition (.rootNotMapping v.typeName))

end Pipeline

end Conveyor
