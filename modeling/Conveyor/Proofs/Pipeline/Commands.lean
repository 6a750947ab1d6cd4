import Conveyor.Proofs.Pipeline.Append
import Conveyor.Proofs.Value.Leaves

/-!
Which values become commands. The items of a list of commands are checked, and those of a list in it are
not: what is written there is a command by its text, whatever it is.
-/

namespace Conveyor

open Value

namespace Field

/-- An item that may stand in a list of commands: a command, or a list of more. -/
def isCommandItem : Value → Bool
  | .list _ => true
  | v => v.isPlain

/-- A value that may hold commands. -/
inductive HoldsCommands : Value → Prop
  | nothing : HoldsCommands .null
  | one (s : String) : HoldsCommands (.str s)
  | list {items : List Value} (each : ∀ item ∈ items, isCommandItem item = true) :
      HoldsCommands (.list items)

theorem commandsOfItem?_eq (item : Value) :
    commandsOfItem? item = if isCommandItem item then some (item.asList.map Value.text) else none := by
  match item with
  | .list _ | .mapping _ | .set _ | .pair _ _ | .loop _ => rfl
  | .scalar s => cases s <;> rfl

theorem mapM_commandsOfItem?_eq (items : List Value) : items.mapM commandsOfItem? =
    if items.all isCommandItem then some (items.map fun item => item.asList.map Value.text) else none := by
  induction items with
  | nil => rfl
  | cons item rest ih =>
      rw [List.mapM_cons, ih, commandsOfItem?_eq, List.all_cons, List.map_cons]
      cases isCommandItem item with
      | false => rfl
      | true =>
          cases rest.all isCommandItem with
          | false | true => rfl

/-- The items of a value, with those of a list in it in its place. -/
def flattenedOnce (v : Value) : List Value := v.asList.flatMap Value.asList

/-- Commands are read from a value that may hold them and from no other. -/
theorem commands_ok_iff {job field : String} {v : Value} {commands : List String} :
    Field.commands job field v = .ok commands ↔
      HoldsCommands v ∧ commands = (flattenedOnce v).map Value.text := by
  unfold Field.commands flattenedOnce
  split
  · exact ⟨fun h => ⟨.nothing, (Except.ok.inj h).symm⟩, fun h => congrArg _ h.2.symm⟩
  · exact ⟨fun h => ⟨.one _, (Except.ok.inj h).symm⟩, fun h => congrArg _ h.2.symm⟩
  · rename_i items
    rw [mapM_commandsOfItem?_eq, asList, List.map_flatMap, List.flatMap_def]
    by_cases each : items.all isCommandItem = true
    · rw [if_pos each]
      exact ⟨fun h => ⟨.list (List.all_eq_true.mp each), (Except.ok.inj h).symm⟩,
        fun h => congrArg _ h.2.symm⟩
    · rw [if_neg each]
      constructor
      · rintro ⟨⟩
      · rintro ⟨holds, -⟩
        cases holds with
        | list all => exact absurd (List.all_eq_true.mpr all) each
  · rename_i notNull notText notList
    constructor
    · rintro ⟨⟩
    · rintro ⟨holds, -⟩
      cases holds with
      | nothing => exact absurd rfl notNull
      | one s => exact absurd rfl (notText s)
      | list => exact absurd rfl (notList _)

/-- The complaint about a value that may hold no commands. -/
def commandsComplaint (job field : String) : Value → DefinitionError
  | .list _ => .badCommand job field
  | _ => .badCommands job field

theorem commands_error {job field : String} {v : Value} (h : ¬HoldsCommands v) :
    Field.commands job field v = .error (commandsComplaint job field v) := by
  unfold Field.commands
  split
  · exact absurd .nothing h
  · exact absurd (.one _) h
  · rename_i items
    rw [mapM_commandsOfItem?_eq, if_neg fun each => h (.list (List.all_eq_true.mp each))]
    rfl
  · rename_i notNull notText notList
    unfold commandsComplaint
    split
    · exact absurd rfl (notList _)
    · rfl

/-- The commands are the texts of all that the value is made of, and this is nothing but texts, numbers
and truth values. -/
def Flattens (v : Value) (commands : List String) : Prop :=
  (∀ leaf ∈ leavesOf v.asList, leaf.isPlain = true) ∧ commands = (leavesOf v.asList).map Value.text

/-- The lists in a list of commands hold nothing but texts, numbers and truth values. -/
def IsPlainInside (v : Value) : Prop := ∀ inner, .list inner ∈ v.asList → ∀ x ∈ inner, x.isPlain = true

theorem HoldsCommands.items {v : Value} (h : HoldsCommands v) :
    ∀ item ∈ v.asList, isCommandItem item = true := by
  cases h with
  | nothing => exact fun _ there => nomatch there
  | one s => exact List.forall_mem_singleton.mpr rfl
  | list each => exact each

theorem eq_list_or_plain {item : Value} (may : isCommandItem item = true) :
    (∃ inner, item = .list inner) ∨ item.isPlain = true ∧ item.asList = [item] := by
  match item with
  | .list inner => exact .inl ⟨inner, rfl⟩
  | .scalar (.str _) | .scalar (.bool _) | .scalar (.int _) | .scalar (.float _) => exact .inr ⟨rfl, rfl⟩

theorem leavesOf_flatMap_asList {items : List Value} (each : ∀ item ∈ items, isCommandItem item = true) :
    leavesOf (items.flatMap Value.asList) = leavesOf items := by
  rw [leavesOf_eq_flatMap, leavesOf_eq_flatMap, List.flatMap_assoc]
  refine List.flatMap_congr fun item there => ?_
  rcases eq_list_or_plain (each item there) with ⟨inner, rfl⟩ | ⟨-, one⟩
  · rw [asList, leaves, leavesOf_eq_flatMap]
  · rw [one, List.flatMap_singleton]

theorem isPlainInside_iff {v : Value} (h : HoldsCommands v) :
    IsPlainInside v ↔ ∀ x ∈ flattenedOnce v, x.isPlain = true := by
  unfold IsPlainInside flattenedOnce
  simp only [List.mem_flatMap]
  constructor
  · rintro inside x ⟨item, there, mem⟩
    rcases eq_list_or_plain (h.items item there) with ⟨inner, rfl⟩ | ⟨plain, one⟩
    · exact inside inner there x mem
    · rw [one, List.mem_singleton] at mem
      exact mem ▸ plain
  · exact fun all inner there x mem => all x ⟨_, there, mem⟩

/-- All of a value becomes commands just where the lists in it hold nothing but texts, numbers and truth
values. -/
theorem flattens_iff {v : Value} (h : HoldsCommands v) :
    Flattens v ((flattenedOnce v).map Value.text) ↔ IsPlainInside v := by
  have same : leavesOf v.asList = leavesOf (flattenedOnce v) := (leavesOf_flatMap_asList h.items).symm
  rw [isPlainInside_iff h, ← map_text_eq_leaves_iff, Flattens, same]

end Field

namespace Pipeline

/-- The fields that a job of a definition is read from: its own over those of its templates, and these
over the ones that all jobs start from. -/
def MergedFields (fields : Fields) (name : String) (merged : Fields) : Prop :=
  ∃ defaults blocks own, defaultsOf fields = .ok defaults ∧ blocksOf fields = .ok blocks ∧
    Blocks.Expands blocks name own ∧ Blocks.overlay defaults own = .ok merged

theorem MergedFields.unique {fields merged merged' : Fields} {name : String}
    (h : MergedFields fields name merged) (h' : MergedFields fields name merged') : merged = merged' := by
  obtain ⟨_, _, _, hdefaults, hblocks, expands, merge⟩ := h
  obtain ⟨_, _, _, hdefaults', hblocks', expands', merge'⟩ := h'
  cases hdefaults.symm.trans hdefaults'
  cases hblocks.symm.trans hblocks'
  obtain rfl := expands.unique expands'
  exact Except.ok.inj (merge.symm.trans merge')

theorem MergedFields.block {fields merged : Fields} {name : String} (h : MergedFields fields name merged) :
    ∃ blocks, blocksOf fields = .ok blocks ∧ name ∈ blocks.keys := by
  obtain ⟨_, blocks, _, -, hblocks, expands, -⟩ := h
  obtain ⟨_, _, _, declares, -⟩ := Blocks.expands_iff.mp expands
  exact ⟨blocks, hblocks, Blocks.mem_keys_of_get? declares.get⟩

/-- A block that is no template makes a job of its merged fields. -/
theorem job_of_block {fields : Fields} {p : Pipeline} (loaded : ofFields fields = .ok p) {blocks : Blocks}
    (hblocks : blocksOf fields = .ok blocks) {name : String} (there : name ∈ blocks.keys)
    (isJob : isTemplate name = false) : ∃ j ∈ p.jobs, ∃ merged templates,
      j.name = name ∧ MergedFields fields name merged ∧ ReadFrom j merged templates := by
  obtain ⟨defaults, _, stageNames, hdefaults, hsame, hjobs⟩ := jobs_of_loaded loaded
  cases hblocks.symm.trans hsame
  have nothing : Blocks.Remembered blocks [] := fun _ _ found => nomatch found
  obtain ⟨_, parents, own, merged, j, hj, -, expands, merge, built⟩ :=
    job_of_buildJobs (fun _ there => there) nothing hjobs there isJob
  obtain ⟨named, reads, -⟩ := readFrom_of_buildJob built
  exact ⟨j, hj, merged, parents, named, ⟨defaults, blocks, own, hdefaults, hblocks, expands, merge⟩, reads⟩

theorem block_of_job {fields : Fields} {p : Pipeline} (loaded : ofFields fields = .ok p) {j : Job}
    (hj : j ∈ p.jobs) :
    ∃ blocks, blocksOf fields = .ok blocks ∧ j.name ∈ blocks.keys ∧ isTemplate j.name = false := by
  obtain ⟨_, blocks, _, -, hblocks, hjobs⟩ := jobs_of_loaded loaded
  have named : j.name ∈ blocks.keys.filter (!isTemplate ·) :=
    (buildJobs_ok hjobs).1 ▸ List.mem_map_of_mem hj
  exact ⟨blocks, hblocks, by simpa using List.mem_filter.mp named⟩

theorem merged_of_job {fields : Fields} {p : Pipeline} (loaded : ofFields fields = .ok p) {j : Job}
    (hj : j ∈ p.jobs) :
    ∃ merged templates, MergedFields fields j.name merged ∧ ReadFrom j merged templates := by
  obtain ⟨blocks, hblocks, there, isJob⟩ := block_of_job loaded hj
  obtain ⟨j', hj', merged, templates, name, isMerged, reads⟩ := job_of_block loaded hblocks there isJob
  -- names differ, so it is the job that its block makes
  have nodup := (sound_ofFields loaded).jobs
  have same := filter_eq_singleton nodup hj
  rw [← name, filter_eq_singleton nodup hj'] at same
  obtain rfl := List.singleton_inj.mp same
  exact ⟨merged, templates, isMerged, reads⟩

/-- What the commands of a job are, and that they are all of the value just where the lists in it hold
nothing but texts, numbers and truth values. -/
structure ReadsCommands (v : Value) (commands : List String) : Prop where
  holds : Field.HoldsCommands v
  texts : commands = (Field.flattenedOnce v).map Value.text
  flattens : Field.Flattens v commands ↔ Field.IsPlainInside v

theorem readsCommands_of_ok {job field : String} {v : Value} {commands : List String}
    (h : Field.commands job field v = .ok commands) : ReadsCommands v commands := by
  obtain ⟨holds, rfl⟩ := Field.commands_ok_iff.mp h
  exact ⟨holds, rfl, Field.flattens_iff holds⟩

/-- The stage that a job is in. -/
def stageOf (fields : Fields) : String :=
  if (fields.field "stage").isTruthy then (fields.field "stage").text else defaultJobStage

/-- A step of loading that finds the definition malformed. -/
def Refuses {α : Type} (x : Except LoadError α) : Prop := ∃ d, x = .error (.definition d)

theorem Refuses.bind {α β : Type} {x : Except LoadError α} (h : Refuses x) (f : α → Except LoadError β) :
    Refuses (x >>= f) := by
  obtain ⟨d, rfl⟩ := h
  exact ⟨d, rfl⟩

theorem Refuses.after {α β : Type} {x : Except LoadError α} {a : α} (h : x = .ok a)
    {f : α → Except LoadError β} (next : Refuses (f a)) : Refuses (x >>= f) := by
  rw [h]
  exact next

theorem allowFailure_ok_or_refuses (job : String) (v : Option Value) :
    (∃ b, Field.allowFailure job v = .ok b) ∨ Refuses (Field.allowFailure job v) := by
  unfold Field.allowFailure
  split
  · exact .inl ⟨_, rfl⟩
  · exact .inl ⟨_, rfl⟩
  · exact .inr ⟨_, rfl⟩

theorem refuses_commands {job field : String} {v : Value} (h : ¬Field.HoldsCommands v) :
    Refuses (Field.commands job field v) :=
  ⟨_, Field.commands_error h⟩

/-- A job in a declared stage is refused as malformed, if a value for its commands may hold none. -/
theorem refuses_buildJob {name : String} {fields : Fields} {stageNames templates : List String}
    (declared : stageOf fields ∈ stageNames)
    (wrong : ¬Field.HoldsCommands (fields.field "script") ∨
      ¬Field.HoldsCommands (fields.field "before_script")) :
    Refuses (buildJob name fields stageNames templates) := by
  unfold buildJob
  extract_lets stage build
  replace declared : stage ∈ stageNames := declared
  rw [if_neg (by simp [declared])]
  by_cases script : Field.HoldsCommands (fields.field "script")
  · have beforeScript := wrong.resolve_left (not_not_intro script)
    refine .after (Field.commands_ok_iff.mpr ⟨script, rfl⟩) ?_
    extract_lets finish
    -- whether there is a script and whether the job may fail is read before the other commands
    split
    · exact .bind ⟨_, rfl⟩ finish
    · rcases allowFailure_ok_or_refuses name (fields.field? "allow_failure") with ⟨b, given⟩ | refused
      · exact .after given ((refuses_commands beforeScript).bind _)
      · exact refused.bind _
  · exact (refuses_commands script).bind _

/-- A definition with a job whose value for its commands may hold none is not loaded. -/
theorem not_loaded_of_merged {fields merged : Fields} {name : String}
    (isMerged : MergedFields fields name merged) (isJob : isTemplate name = false)
    (wrong : ¬Field.HoldsCommands (merged.field "script") ∨
      ¬Field.HoldsCommands (merged.field "before_script")) (p : Pipeline) : ofFields fields ≠ .ok p := by
  intro loaded
  obtain ⟨blocks, hblocks, there⟩ := isMerged.block
  obtain ⟨j, -, merged', templates, -, isMerged', reads⟩ := job_of_block loaded hblocks there isJob
  obtain rfl := isMerged.unique isMerged'
  have script := (Field.commands_ok_iff.mp reads.script).1
  have beforeScript := (Field.commands_ok_iff.mp reads.beforeScript).1
  exact wrong.elim (· script) (· beforeScript)

/-- The commands of the jobs of a definition, where it can be loaded, are all that the merged values are
made of just where the lists in these hold nothing but texts, numbers and truth values. What is wrong in the
values themselves is refused. -/
theorem commands_flatten_iff (fields : Fields) :
    (∀ p, ofFields fields = .ok p → ∀ j ∈ p.jobs, ∃ merged, MergedFields fields j.name merged ∧
      ReadsCommands (merged.field "script") j.script ∧
      ReadsCommands (merged.field "before_script") j.beforeScript) ∧
    ∀ name merged, MergedFields fields name merged →
      ¬Field.HoldsCommands (merged.field "script") ∨ ¬Field.HoldsCommands (merged.field "before_script") →
        (isTemplate name = false → ∀ p, ofFields fields ≠ .ok p) ∧
        ∀ stageNames templates, stageOf merged ∈ stageNames →
          Refuses (buildJob name merged stageNames templates) := by
  constructor
  · intro p loaded j hj
    obtain ⟨merged, templates, isMerged, reads⟩ := merged_of_job loaded hj
    exact ⟨merged, isMerged, readsCommands_of_ok reads.script, readsCommands_of_ok reads.beforeScript⟩
  · intro name merged isMerged wrong
    exact ⟨fun isJob => not_loaded_of_merged isMerged isJob wrong,
      fun stageNames templates declared => refuses_buildJob declared wrong⟩

/-- A definition of one job with a list for its script. -/
def listedScript (items : List Value) : Fields := [(.str "j", .mapping [(.str "script", .list items)])]

theorem mergedFields_listedScript (items : List Value) :
    MergedFields (listedScript items) "j" [(.str "script", .list items)] := by
  have declares : Blocks.Declares [("j", [(.str "script", .list items)])] "j"
      [(.str "script", .list items)] (([] : List (String × Fields)).map (·.1)) := ⟨rfl, .none⟩
  have expands := Blocks.Expands.block declares (fun _ he => nomatch he) rfl rfl
  exact ⟨[], _, _, rfl, rfl, expands, rfl⟩

theorem commands_flatten_sample : ∃ p j,
    ofFields (listedScript [.list [.str "a", .int 1], .bool true]) = .ok p ∧ p.jobs = [j] ∧
    j.script = ["a", "1", "True"] ∧
    Field.Flattens (.list [.list [.str "a", .int 1], .bool true]) j.script ∧
    MergedFields (listedScript [.null]) "j" [(.str "script", .list [.null])] ∧
    ¬Field.HoldsCommands (.list [.null]) ∧ isTemplate "j" = false ∧
    (∀ p, ofFields (listedScript [.null]) ≠ .ok p) ∧
    stageOf [(.str "script", .list [.null])] ∈ defaultStages ∧
    Refuses (buildJob "j" [(.str "script", .list [.null])] defaultStages []) := by
  obtain ⟨p, j, loaded, jobs, name, script⟩ := loaded_of_jobs (·.script) (show
    (ofFields (listedScript [.list [.str "a", .int 1], .bool true])).toOption.map
      (·.jobs.map fun j => (j.name, j.script)) = some [("j", ["a", "1", "True"])] by decide +kernel)
  obtain ⟨merged, isMerged, reads, -⟩ := (commands_flatten_iff _).1 p loaded j (by simp [jobs])
  rw [name] at isMerged
  obtain rfl := isMerged.unique (mergedFields_listedScript _)
  have plain : Field.IsPlainInside (.list [.list [.str "a", .int 1], .bool true]) := by
    intro inner there x mem
    rcases List.mem_pair.mp there with same | same
    · cases same
      rcases List.mem_pair.mp mem with rfl | rfl <;> rfl
    · cases same
  have none : ¬Field.HoldsCommands (.list [.null]) := by
    intro holds
    cases holds with
    | list each => exact absurd (each .null (List.mem_singleton_self _)) (by decide)
  have isMerged := mergedFields_listedScript [.null]
  have declared : stageOf [(.str "script", .list [.null])] ∈ defaultStages := by decide
  have isJob : isTemplate "j" = false := by decide +kernel
  obtain ⟨unloaded, refused⟩ := (commands_flatten_iff _).2 "j" _ isMerged (.inl none)
  exact ⟨p, j, loaded, jobs, script, reads.flattens.mpr plain, isMerged, none, isJob, unloaded isJob,
    declared, refused defaultStages [] declared⟩

theorem null_becomes_command : ¬∀ (fields : Fields) (p : Pipeline), ofFields fields = .ok p →
    ∀ j ∈ p.jobs, ∀ merged, MergedFields fields j.name merged →
      Field.Flattens (merged.field "script") j.script := by
  intro always
  obtain ⟨p, j, loaded, jobs, name, -⟩ := loaded_of_jobs (·.script) (show
    (ofFields (listedScript [.list [.str "a", .null]])).toOption.map
      (·.jobs.map fun j => (j.name, j.script)) = some [("j", ["a", "None"])] by decide +kernel)
  obtain ⟨plain, -⟩ := always _ p loaded j (by simp [jobs]) _ (name ▸ mergedFields_listedScript _)
  have there : Value.null ∈ [Value.str "a", .null] := by simp
  exact absurd (plain .null there) (by decide)

end Pipeline

end Conveyor
