import Conveyor.Proofs.Pipeline.Complaint
import Conveyor.Proofs.Pipeline.Definition
import Conveyor.Proofs.Value.Append

/-!
What an entry that appends to the commands before a script reaches. The block of a job is merged over
its templates first and over the fields that all jobs start from afterwards: the entry adds to what the
templates give, and where they give nothing its list replaces the commands that all jobs start from.
-/

namespace Conveyor

namespace Field

/-- The commands that the items of a list stand for. -/
def commandsOfItems? (items : List Value) : Option (List String) :=
  (items.mapM commandsOfItem?).map List.flatten

theorem commandsOfItems?_append {first second : List Value} {commands : List String} :
    commandsOfItems? (first ++ second) = some commands ↔ ∃ a b, commandsOfItems? first = some a ∧
      commandsOfItems? second = some b ∧ commands = a ++ b := by
  simp only [commandsOfItems?, List.mapM_append, Option.map_eq_some_iff, Option.bind_eq_bind,
    Option.bind_eq_some_iff, Option.pure_def, Option.some.injEq]
  constructor
  · rintro ⟨groups, ⟨a, ha, b, hb, rfl⟩, rfl⟩
    exact ⟨a.flatten, b.flatten, ⟨a, ha, rfl⟩, ⟨b, hb, rfl⟩, List.flatten_append⟩
  · rintro ⟨_, _, ⟨a, ha, rfl⟩, ⟨b, hb, rfl⟩, rfl⟩
    exact ⟨a ++ b, ⟨a, ha, b, hb, rfl⟩, List.flatten_append⟩

theorem commandsOfItems?_of_commands {job field : String} {v : Value} {commands : List String}
    (h : Field.commands job field v = .ok commands) : commandsOfItems? v.asList = some commands := by
  unfold Field.commands at h
  split at h
  · cases h
    rfl
  · cases h
    rfl
  · rename_i items
    split at h
    · rename_i groups hgroups
      cases h
      simp [Value.asList, commandsOfItems?, hgroups]
    · cases h
  · cases h

/-- A mapping is no command. -/
theorem ne_mapping_of_commandsOfItems? {v : Value} {commands : List String}
    (h : commandsOfItems? v.asList = some commands) (entries : List (Scalar × Value)) :
    v ≠ .mapping entries := by
  rintro rfl
  cases h

end Field

namespace Blocks

open Relation

variable {blocks blocks' : Blocks} {name : String}

/-- What a block is merged over: the fields of its templates. -/
def Inherits (blocks : Blocks) (name : String) (inherited : Fields) : Prop :=
  ∃ block parents, Declares blocks name block parents ∧ Gathered blocks parents inherited

/-- Tables that agree on all that a block reaches give it the same fields. -/
theorem Expands.congr {fields : Fields} (h : Expands blocks name fields)
    (same : ∀ other, ReflTransGen (Extends blocks) name other → blocks.get? other = blocks'.get? other) :
    Expands blocks' name fields := by
  induction h with
  | @block name block inherited merged fields declares _ merge own ih =>
      refine .block ⟨(same name .refl).symm.trans declares.get, declares.names⟩ (fun e he => ?_) merge own
      have extends_ : Extends blocks name e.1 :=
        ⟨block, _, declares, List.mem_map.mpr ⟨e, he, rfl⟩⟩
      exact ih e he fun other reached => same other (.head extends_ reached)

/-- A block is merged over the same fields where only the block itself is another. -/
theorem Gathered.congr {block fields merged : Fields} {parents : List String}
    (declares : Declares blocks name block parents) (expands : Expands blocks name fields)
    (same : ∀ other, other ≠ name → blocks.get? other = blocks'.get? other)
    (h : Gathered blocks parents merged) : Gathered blocks' parents merged := by
  obtain ⟨inherited, rfl, each, merge⟩ := h
  refine ⟨inherited, rfl, fun e he => (each e he).congr fun other reached => same other ?_, merge⟩
  have extends_ : Extends blocks name e.1 :=
    ⟨block, _, declares, List.mem_map.mpr ⟨e, he, rfl⟩⟩
  -- a template that reached the block again would close a cycle
  rintro rfl
  exact expands.resolvable.acyclic _ .refl (.head' extends_ reached)

end Blocks

namespace Pipeline

/-- Jobs that are read from fields that differ in the commands before the script differ in these only. -/
theorem ReadFrom.eq_but_beforeScript {j j' : Job} {fields fields' : Fields} {templates : List String}
    (h : ReadFrom j fields templates) (h' : ReadFrom j' fields' templates) (name : j.name = j'.name)
    (same : ∀ other, other ≠ "before_script" → fields.field? other = fields'.field? other) :
    j = { j' with beforeScript := j.beforeScript } := by
  have field : ∀ other, other ≠ "before_script" → fields.field other = fields'.field other :=
    fun other ne => congrArg (·.getD .null) (same other ne)
  have stage : j.stage = j'.stage := by
    rw [h.stage, h'.stage, field "stage" (by decide)]
  have script : j.script = j'.script := by
    refine Except.ok.inj (h.script.symm.trans (Eq.trans ?_ h'.script))
    rw [name, field "script" (by decide)]
  have cache : j.cache = j'.cache := by
    refine Except.ok.inj (h.cache.symm.trans (Eq.trans ?_ h'.cache))
    rw [name, field "cache" (by decide)]
  have trigger : j.trigger = j'.trigger := by
    refine Except.ok.inj (h.trigger.symm.trans (Eq.trans ?_ h'.trigger))
    simp only [name, Field.trigger, field "rules" (by decide), field "only" (by decide),
      field "except" (by decide)]
  have bindings : j.bindings = j'.bindings := by
    refine Except.ok.inj (h.bindings.symm.trans (Eq.trans ?_ h'.bindings))
    rw [name, field "variables" (by decide)]
  have allowFailure : j.allowFailure = j'.allowFailure := by
    refine Except.ok.inj (h.allowFailure.symm.trans (Eq.trans ?_ h'.allowFailure))
    rw [name, same "allow_failure" (by decide)]
  have templates : j.templates = j'.templates := h.templates.trans h'.templates.symm
  cases j
  cases j'
  simp_all

/-- Each block that is no template makes a job. -/
theorem job_of_buildJobs {defaults : Fields} {blocks : Blocks} {stageNames names : List String}
    (there : ∀ name ∈ names, name ∈ blocks.keys) {known : Resolved}
    (remembered : Blocks.Remembered blocks known) {jobs : List Job}
    (h : buildJobs defaults blocks stageNames names known = .ok jobs) {name : String} (mem : name ∈ names)
    (isJob : isTemplate name = false) : ∃ block parents own fields, ∃ j ∈ jobs,
      Blocks.Declares blocks name block parents ∧ Blocks.Expands blocks name own ∧
        Blocks.overlay defaults own = .ok fields ∧ buildJob name fields stageNames parents = .ok j := by
  induction names generalizing known jobs with
  | nil => cases mem
  | cons first rest ih =>
      obtain ⟨thereFirst, thereRest⟩ := List.forall_mem_cons.mp there
      rw [buildJobs] at h
      split at h
      · rename_i template
        have later : name ∈ rest := (List.mem_cons.mp mem).resolve_left fun same => by
          simp [← same, isJob] at template
        exact ih thereRest remembered h later
      · have answers := Blocks.complains_resolve remembered thereFirst
        generalize blocks.resolve first [] known = answer at answers h
        cases answers with
        | complaint => cases h
        | @resolved own known expands remembered =>
            obtain ⟨block, parents, _, declares, _⟩ := Blocks.expands_iff.mp expands
            obtain ⟨fields, hfields, h⟩ := ok_of_bind_ok h
            obtain ⟨templates, htemplates, h⟩ := ok_of_bind_ok h
            obtain rfl := Except.ok.inj ((templatesOf_declares declares).symm.trans htemplates)
            obtain ⟨j, hj, h⟩ := ok_of_bind_ok h
            obtain ⟨others, hothers, h⟩ := ok_of_bind_ok h
            cases h
            rcases List.mem_cons.mp mem with rfl | later
            · exact ⟨block, parents, own, fields, j, by simp, declares, expands, hfields, hj⟩
            · obtain ⟨block, parents, own, fields, j, hmem, made⟩ := ih thereRest remembered hothers later
              exact ⟨block, parents, own, fields, j, List.mem_cons_of_mem _ hmem, made⟩

/-- The block that an entry of a definition gives for a name. -/
def blockNamed? (name : String) (e : Scalar × Value) : Option Fields :=
  if e.1.text = name ∧ reservedKeys.contains name = false then
    match e.2 with
    | .mapping entries => some entries
    | _ => none
  else none

theorem get?_foldlM {f : Blocks → Scalar × Value → Except LoadError Blocks} {name : String}
    (step : ∀ known e next, f known e = .ok next →
      next.get? name = (blockNamed? name e).or (known.get? name)) {fields : Fields} {known blocks : Blocks}
    (h : fields.foldlM f known = .ok blocks) :
    blocks.get? name = (fields.reverse.findSome? (blockNamed? name)).or (known.get? name) := by
  induction fields generalizing known with
  | nil =>
      cases h
      rfl
  | cons e rest ih =>
      rw [List.foldlM_cons] at h
      obtain ⟨next, hnext, h⟩ := ok_of_bind_ok h
      rw [ih h, step known e next hnext, List.reverse_cons, List.findSome?_append, Option.or_assoc]
      simp

/-- Of the entries that give a block for a name, the last counts. -/
theorem get?_blocksOf {fields : Fields} {blocks : Blocks} (h : blocksOf fields = .ok blocks)
    (name : String) : blocks.get? name = fields.reverse.findSome? (blockNamed? name) := by
  rw [get?_foldlM ?_ h]
  · simp [Table.get?]
  · intro known e next hnext
    dsimp only at hnext
    split at hnext
    · rename_i reserved
      cases hnext
      have unnamed : blockNamed? name e = none := if_neg fun named => by
        rw [named.1, named.2] at reserved
        cases reserved
      simp [unnamed]
    · rename_i block
      split at hnext
      · rename_i entries body
        cases hnext
        rw [Table.get?_put]
        by_cases same : e.1.text = name
        · subst same
          have named : blockNamed? e.1.text e = some entries := by
            rw [blockNamed?, if_pos ⟨rfl, by simpa using block⟩, body]
          simp [named]
        · simp [blockNamed?, same]
      · cases hnext

/-- A definition with a block of a job that appends to the commands before its script in one entry, and
does not give them otherwise. -/
structure Appending where
  before : Fields
  key : Scalar
  pre : Fields
  value : Value
  post : Fields
  after : Fields
  isJob : namesJob key.text = true
  last : ∀ e ∈ after, e.1.text ≠ key.text
  once : ∀ e ∈ pre ++ post, e.1 ≠ .str "before_script" ∧ e.1 ≠ .str "before_script+"

namespace Appending

variable (a : Appending)

def name : String := a.key.text

/-- The block with the entry. -/
def block : Fields := a.pre ++ (.str "before_script+", a.value) :: a.post

/-- The block without the entry. -/
def plainBlock : Fields := a.pre ++ a.post

/-- The definition with a block in the place of the job's. -/
def definition (block : Fields) : Fields := a.before ++ (a.key, .mapping block) :: a.after

variable {a}

theorem block_of_name : reservedKeys.contains a.name = false ∧ isTemplate a.name = false := by
  simpa [namesJob, name] using a.isJob

/-- What is reserved is read from the same entries, whatever the block. -/
theorem field_definition {key : String} (reserved : reservedKeys.contains key = true) (block : Fields) :
    (a.definition block).field key = (a.definition []).field key := by
  have other : (a.key == .str key) = false := by
    rw [← Bool.not_eq_true, Scalar.beq_str_iff]
    intro same
    have named : a.name = key := by rw [name, same]; rfl
    rw [← named, block_of_name.1] at reserved
    cases reserved
  simp [definition, Fields.field, Fields.field?, Table.get?_append, Table.get?, other]

theorem get?_definition {block : Fields} {blocks : Blocks}
    (h : blocksOf (a.definition block) = .ok blocks) :
    blocks.get? a.name = some block := by
  have later : a.after.reverse.findSome? (blockNamed? a.name) = none := by
    refine List.findSome?_eq_none_iff.mpr fun e he => if_neg fun h => ?_
    exact a.last e (List.mem_reverse.mp he) h.1
  have here : blockNamed? a.name (a.key, .mapping block) = some block := if_pos ⟨rfl, block_of_name.1⟩
  rw [get?_blocksOf h]
  simp [definition, List.findSome?_append, later, here]

theorem get?_definition_of_ne {block block' : Fields} {blocks blocks' : Blocks}
    (h : blocksOf (a.definition block) = .ok blocks) (h' : blocksOf (a.definition block') = .ok blocks')
    {other : String} (ne : other ≠ a.name) : blocks.get? other = blocks'.get? other := by
  have elsewhere : ∀ block, blockNamed? other (a.key, .mapping block) = none :=
    fun block => if_neg fun h => ne h.1.symm
  rw [get?_blocksOf h, get?_blocksOf h']
  simp [definition, List.findSome?_append, elsewhere]

end Appending

/-- The commands before a script with an entry that adds to them, and the plain ones without the entry.
The entry adds to what the templates give. A key that ends in two markers leaves one in the resolved
fields, and what that one appends is added later, with the entry and without it. -/
def AddsTo (defaults inherited resolved : Fields) (value : Value) (commands plain : List String) : Prop :=
  ∃ given added later,
    Field.commandsOfItems? (inherited.field "before_script").asList = some given ∧
    Field.commandsOfItems? value.asList = some added ∧
    Field.commandsOfItems? (resolved.markedAfter "before_script") = some later ∧
    commands = given ++ added ++ later ∧
    (commands = plain ++ added ↔
      (inherited.field? "before_script" = none → plain = later) ∧ added ++ later = later ++ added) ∧
    (resolved.field? "before_script+" = none → later = [] ∧
      (inherited.field? "before_script" = none →
        Field.commandsOfItems? (defaults.field "before_script").asList = some plain))

theorem append_eq_append_iff_of_suffix {α : Type u} {added later plain : List α} (h : later <:+ plain) :
    added ++ later = plain ++ added ↔ plain = later ∧ added ++ later = later ++ added := by
  constructor
  · intro same
    have lengths := congrArg List.length same
    simp only [List.length_append] at lengths
    obtain rfl := h.eq_of_length (by omega)
    exact ⟨rfl, same⟩
  · rintro ⟨rfl, same⟩
    exact same

/-- Without the entry, what the templates give takes the place of what all jobs start from. -/
theorem plain_of_given {defaults fields' : Fields} {w : Value} {given later plain : List String}
    (place : Place "before_script") (merge : defaults.merge (place.fill (some w)) = .ok fields')
    (reads : Field.commandsOfItems? (fields'.field "before_script").asList = some plain)
    (hgiven : Field.commandsOfItems? w.asList = some given)
    (hlater : Field.commandsOfItems? (Fields.marked "before_script" place.after) = some later) :
    plain = given ++ later := by
  rw [place.field_merge (by decide) (Field.ne_mapping_of_commandsOfItems? hgiven) merge,
    Field.commandsOfItems?_append] at reads
  obtain ⟨given', later', hgiven', hlater', rfl⟩ := reads
  obtain rfl := Option.some.inj (hgiven.symm.trans hgiven')
  obtain rfl := Option.some.inj (hlater.symm.trans hlater')
  rfl

/-- Without the entry, where the templates give nothing, what all jobs start from is there. -/
theorem plain_of_ungiven {defaults fields' : Fields} {later plain : List String}
    (place : Place "before_script") (merge : defaults.merge (place.fill none) = .ok fields')
    (reads : Field.commandsOfItems? (fields'.field "before_script").asList = some plain)
    (hlater : Field.commandsOfItems? (Fields.marked "before_script" place.after) = some later) :
    ∃ shared earlier, Field.commandsOfItems? (defaults.field "before_script").asList = some shared ∧
      Field.commandsOfItems? (Fields.marked "before_script" place.before) = some earlier ∧
        plain = shared ++ earlier ++ later := by
  rw [place.field_merge_none merge, Field.commandsOfItems?_append] at reads
  obtain ⟨both, later', hboth, hlater', rfl⟩ := reads
  obtain rfl := Option.some.inj (hlater.symm.trans hlater')
  obtain ⟨shared, earlier, hshared, hearlier, rfl⟩ := Field.commandsOfItems?_append.mp hboth
  exact ⟨shared, earlier, hshared, hearlier, rfl⟩

theorem addsTo_of_fill {defaults inherited fields fields' : Fields} {value : Value}
    {commands plain : List String} (place : Place "before_script")
    (merge : defaults.merge (place.fill
      (some (.list ((inherited.field "before_script").asList ++ value.asList)))) = .ok fields)
    (merge' : defaults.merge (place.fill (inherited.field? "before_script")) = .ok fields')
    (reads : Field.commandsOfItems? (fields.field "before_script").asList = some commands)
    (reads' : Field.commandsOfItems? (fields'.field "before_script").asList = some plain) :
    AddsTo defaults inherited
      (place.fill (some (.list ((inherited.field "before_script").asList ++ value.asList)))) value
      commands plain := by
  have isPlain : appendTarget? "before_script" = none := by decide
  rw [place.field_merge isPlain (fun _ => Value.noConfusion) merge, Field.commandsOfItems?_append] at reads
  obtain ⟨both, later, hboth, hlater, rfl⟩ := reads
  obtain ⟨given, added, hgiven, hadded, rfl⟩ := Field.commandsOfItems?_append.mp hboth
  refine ⟨given, added, later, hgiven, hadded, by rwa [place.markedAfter_fill isPlain], rfl, ?_⟩
  have unread : ∀ {commands : List String}, Field.commandsOfItems? [] = some commands → commands = [] :=
    fun h => (Option.some.inj h).symm
  cases held : inherited.field? "before_script" with
  | none =>
      rw [held] at merge'
      obtain ⟨shared, earlier, hshared, hearlier, rfl⟩ := plain_of_ungiven place merge' reads' hlater
      obtain rfl : given = [] := unread (by simpa [Fields.field, held, Value.asList] using hgiven)
      refine ⟨?_, fun absent => ?_⟩
      · simpa using append_eq_append_iff_of_suffix (List.suffix_append (shared ++ earlier) later)
      · obtain ⟨noneBefore, noneAfter⟩ := place.marked_eq_nil absent
        obtain rfl := unread (noneBefore ▸ hearlier)
        obtain rfl := unread (noneAfter ▸ hlater)
        simpa using hshared
  | some w =>
      rw [held] at merge'
      rw [Fields.field, held] at hgiven
      obtain rfl := plain_of_given place merge' reads' hgiven hlater
      refine ⟨by simp, fun absent => ?_⟩
      exact ⟨unread ((place.marked_eq_nil absent).2 ▸ hlater), by simp⟩

/-- The jobs of a definition are built from its blocks, over what all jobs start from. -/
theorem jobs_of_loaded {fields : Fields} {p : Pipeline} (loaded : ofFields fields = .ok p) :
    ∃ defaults blocks stageNames, defaultsOf fields = .ok defaults ∧ blocksOf fields = .ok blocks ∧
      buildJobs defaults blocks stageNames blocks.keys [] = .ok p.jobs := by
  obtain ⟨stages, -, loaded⟩ := ok_of_bind_ok loaded
  obtain ⟨bindings, -, loaded⟩ := ok_of_bind_ok loaded
  obtain ⟨defaults, hdefaults, loaded⟩ := ok_of_bind_ok loaded
  obtain ⟨blocks, hblocks, loaded⟩ := ok_of_bind_ok loaded
  obtain ⟨jobs, hjobs, loaded⟩ := ok_of_bind_ok loaded
  cases loaded
  exact ⟨defaults, blocks, _, hdefaults, hblocks, hjobs⟩

theorem filter_eq_singleton {α : Type u} {name : α → String} {l : List α} (nodup : (l.map name).Nodup)
    {x : α} (h : x ∈ l) : l.filter (name · == name x) = [x] := by
  induction l with
  | nil => cases h
  | cons y rest ih =>
      obtain ⟨fresh, nodup⟩ := List.nodup_cons.mp nodup
      rcases List.mem_cons.mp h with rfl | h
      · have others : rest.filter (name · == name x) = [] := by
          refine List.filter_eq_nil_iff.mpr fun y hy same => fresh ?_
          exact eq_of_beq same ▸ List.mem_map_of_mem hy
        simp [others]
      · have other : (name y == name x) = false :=
          beq_false_of_ne fun same => fresh (same ▸ List.mem_map_of_mem h)
        rw [List.filter_cons_of_neg (by simp [other]), ih nodup h]

namespace Appending

variable {a : Appending} {block : Fields} {p : Pipeline}

/-- The one job of the name, and the fields that it is read from. -/
structure JobOf (a : Appending) (block : Fields) (p : Pipeline) (defaults : Fields) (blocks : Blocks)
    (parents : List String) (resolved fields : Fields) (j : Job) : Prop where
  table : blocksOf (a.definition block) = .ok blocks
  declares : Blocks.Declares blocks a.name block parents
  expands : Blocks.Expands blocks a.name resolved
  merge : Blocks.overlay defaults resolved = .ok fields
  only : p.jobs.filter (·.name == a.name) = [j]
  name : j.name = a.name
  reads : ReadFrom j fields parents

theorem jobOf (loaded : ofFields (a.definition block) = .ok p) :
    ∃ defaults blocks parents resolved fields j, defaultsOf (a.definition []) = .ok defaults ∧
      JobOf a block p defaults blocks parents resolved fields j := by
  have sound := sound_ofFields loaded
  obtain ⟨defaults, blocks, stageNames, hdefaults, hblocks, hjobs⟩ := jobs_of_loaded loaded
  have get := get?_definition hblocks
  have nothing : Blocks.Remembered blocks [] := fun _ _ found => nomatch found
  obtain ⟨block', parents, resolved, fields, j, hj, declares, expands, merge, built⟩ :=
    job_of_buildJobs (fun _ there => there) nothing hjobs (Blocks.mem_keys_of_get? get) block_of_name.2
  obtain rfl := Option.some.inj (get.symm.trans declares.get)
  obtain ⟨named, reads, -⟩ := readFrom_of_buildJob built
  rw [defaultsOf, field_definition (by decide)] at hdefaults
  exact ⟨defaults, blocks, parents, resolved, fields, j, hdefaults, hblocks, declares, expands, merge,
    named ▸ filter_eq_singleton sound.jobs hj, named, reads⟩

theorem spares_own : Fields.Spares "before_script"
    (Blocks.ownFields a.pre ++ Blocks.ownFields a.post) := by
  intro e he key hkey writes
  rw [Blocks.ownFields, Blocks.ownFields, Table.erase, Table.erase, ← List.filter_append] at he
  obtain ⟨notPlain, notMarker⟩ := a.once e (List.mem_filter.mp he).1
  cases target : appendTarget? key with
  | none =>
      rw [fieldOf, target] at writes
      exact notPlain (hkey.trans (congrArg Scalar.str writes))
  | some field =>
      rw [fieldOf, target] at writes
      cases writes
      exact notMarker (hkey.trans (congrArg Scalar.str (eq_of_appendTarget? target)))

theorem ownFields_block : Blocks.ownFields a.block =
    Blocks.ownFields a.pre ++ (.str "before_script+", a.value) :: Blocks.ownFields a.post := by
  have kept : (Scalar.str "before_script+" == .str "extends") = false := by decide
  simp [Blocks.ownFields, Table.erase, block, kept]

theorem ownFields_plainBlock : Blocks.ownFields a.plainBlock =
    Blocks.ownFields a.pre ++ Blocks.ownFields a.post := by
  simp [Blocks.ownFields, Table.erase, plainBlock]

theorem extends_plainBlock : a.plainBlock.field "extends" = a.block.field "extends" := by
  have other : (Scalar.str "before_script+" == .str "extends") = false := by decide
  simp [Fields.field, Fields.field?, block, plainBlock, Table.get?_append, Table.get?, other]

end Appending

theorem merge_of_overlay {base override merged : Fields} (h : Blocks.overlay base override = .ok merged) :
    base.merge override = .ok merged := by
  unfold Blocks.overlay at h
  split at h
  · cases h
    assumption
  · cases h

theorem placed_of_gathered {blocks : Blocks} {parents : List String} {merged : Fields} (name : String)
    (h : Blocks.Gathered blocks parents merged) : merged.Placed name := by
  obtain ⟨inherited, -, -, merge⟩ := h
  exact foldlM_ok (P := Fields.Placed name)
    (fun _ _ _ next placed => placed.merge (merge_of_overlay next)) merge Fields.placed_nil

/-- The resolved fields of a job with the entry and without it: they differ at one place, which holds what
the templates give and then what the entry adds, or just what the templates give. -/
theorem exists_place {a : Appending} {p p' : Pipeline} {defaults resolved resolved' fields fields' : Fields}
    {blocks blocks' : Blocks} {parents parents' : List String} {j j' : Job}
    (made : a.JobOf a.block p defaults blocks parents resolved fields j)
    (made' : a.JobOf a.plainBlock p' defaults blocks' parents' resolved' fields' j') :
    ∃ inherited, ∃ place : Place "before_script", Blocks.Inherits blocks a.name inherited ∧
      resolved = place.fill (some (.list ((inherited.field "before_script").asList ++ a.value.asList))) ∧
      resolved' = place.fill (inherited.field? "before_script") := by
  obtain ⟨block, parents, inherited, declares, gathered, own⟩ := Blocks.expands_iff.mp made.expands
  obtain ⟨rfl, -⟩ := made.declares.unique declares
  obtain ⟨block', parents', inherited', declares', gathered', own'⟩ := Blocks.expands_iff.mp made'.expands
  obtain ⟨rfl, -⟩ := made'.declares.unique declares'
  obtain rfl : parents = parents' :=
    declares.names.unique (Appending.extends_plainBlock ▸ declares'.names)
  -- the templates of the job do not lead back to it, so they give it the same both times
  obtain rfl := (gathered.congr declares made.expands fun other ne =>
    Appending.get?_definition_of_ne made.table made'.table ne).unique gathered'
  rw [Appending.ownFields_block] at own
  rw [Appending.ownFields_plainBlock] at own'
  obtain ⟨place, hresolved, hplain⟩ := Fields.merge_marker (placed_of_gathered _ gathered) (by decide)
    Appending.spares_own (merge_of_overlay own)
  exact ⟨inherited, place, ⟨_, _, declares, gathered⟩, hresolved,
    Except.ok.inj ((merge_of_overlay own').symm.trans hplain)⟩

/-- An entry that appends to the commands before the script of a job makes no difference to its other
fields, and comes after what the templates give. If no marker is left in the resolved fields, the job has
its plain commands and then those of the entry just where the templates give some or there are no plain
ones: otherwise the list of the entry takes the place of what all jobs start from. -/
theorem append_reaches_templates (a : Appending) {p p' : Pipeline}
    (loaded : ofFields (a.definition a.block) = .ok p)
    (plain : ofFields (a.definition a.plainBlock) = .ok p') :
    ∃ defaults blocks inherited resolved j j',
      defaultsOf (a.definition a.block) = .ok defaults ∧ blocksOf (a.definition a.block) = .ok blocks ∧
      Blocks.Inherits blocks a.name inherited ∧ Blocks.Expands blocks a.name resolved ∧
      p.jobs.filter (·.name == a.name) = [j] ∧ p'.jobs.filter (·.name == a.name) = [j'] ∧
      j = { j' with beforeScript := j.beforeScript } ∧
      AddsTo defaults inherited resolved a.value j.beforeScript j'.beforeScript := by
  obtain ⟨defaults, blocks, parents, resolved, fields, j, hdefaults, made⟩ := Appending.jobOf loaded
  obtain ⟨defaults', blocks', parents', resolved', fields', j', hdefaults', made'⟩ := Appending.jobOf plain
  obtain rfl := Except.ok.inj (hdefaults.symm.trans hdefaults')
  obtain rfl : parents = parents' :=
    made.declares.names.unique (Appending.extends_plainBlock ▸ made'.declares.names)
  obtain ⟨inherited, place, inherits, rfl, rfl⟩ := exists_place made made'
  have merge := merge_of_overlay made.merge
  have merge' := merge_of_overlay made'.merge
  refine ⟨defaults, blocks, inherited, _, j, j', ?_, made.table, inherits, made.expands,
    made.only, made'.only, ?_, ?_⟩
  · rw [defaultsOf, Appending.field_definition (by decide)]
    exact hdefaults
  · exact made.reads.eq_but_beforeScript made'.reads (made.name.trans made'.name.symm) fun other ne =>
      place.field?_merge_of_ne (by decide) merge merge' ne
  · exact addsTo_of_fill place merge merge' (Field.commandsOfItems?_of_commands made.reads.beforeScript)
      (Field.commandsOfItems?_of_commands made'.reads.beforeScript)

theorem loaded_of_jobs {α : Type} (read : Job → α) {fields : Fields} {name : String} {a : α}
    (h : (ofFields fields).toOption.map (·.jobs.map fun j => (j.name, read j)) = some [(name, a)]) :
    ∃ p j, ofFields fields = .ok p ∧ p.jobs = [j] ∧ j.name = name ∧ read j = a := by
  cases loaded : ofFields fields with
  | error e =>
      rw [loaded] at h
      cases h
  | ok p =>
      rw [loaded] at h
      obtain ⟨j, jobs, same⟩ := List.map_eq_singleton_iff.mp (Option.some.inj h)
      cases same
      exact ⟨p, j, rfl, jobs, rfl, rfl⟩

/-- The names of the jobs of a definition, where it can be loaded, and the commands before their scripts. -/
def commandsBefore? (fields : Fields) : Option (List (String × List String)) :=
  (ofFields fields).toOption.map (·.jobs.map fun j => (j.name, j.beforeScript))

theorem loaded_of_commandsBefore? {fields : Fields} {name : String} {commands : List String}
    (h : commandsBefore? fields = some [(name, commands)]) :
    ∃ p j, ofFields fields = .ok p ∧ p.jobs = [j] ∧ j.name = name ∧ j.beforeScript = commands :=
  loaded_of_jobs (·.beforeScript) h

/-- A job that appends to the commands of its template. -/
def appendingSample : Appending where
  before := [(.str ".base", .mapping [(.str "before_script", .list [.str "a"])])]
  key := .str "j"
  pre := [(.str "extends", .str ".base"), (.str "script", .list [.str "s"])]
  value := .list [.str "b"]
  post := []
  after := []
  isJob := by decide +kernel
  last := by simp
  once := by simp

theorem append_to_template_sample : ∃ p p' j j',
    ofFields (appendingSample.definition appendingSample.block) = .ok p ∧
      ofFields (appendingSample.definition appendingSample.plainBlock) = .ok p' ∧
      p.jobs = [j] ∧ p'.jobs = [j'] ∧ j = { j' with beforeScript := j.beforeScript } ∧
      j.beforeScript = ["a", "b"] ∧ j'.beforeScript = ["a"] := by
  obtain ⟨p, j, loaded, jobs, -, commands⟩ := loaded_of_commandsBefore? (show commandsBefore?
    (appendingSample.definition appendingSample.block) = some [("j", ["a", "b"])] by decide +kernel)
  obtain ⟨p', j', loaded', jobs', -, commands'⟩ := loaded_of_commandsBefore? (show commandsBefore?
    (appendingSample.definition appendingSample.plainBlock) = some [("j", ["a"])] by decide +kernel)
  obtain ⟨-, -, -, -, k, k', -, -, -, -, only, only', others, -⟩ :=
    append_reaches_templates appendingSample loaded loaded'
  have isJob : k ∈ p.jobs := List.mem_of_mem_filter (only ▸ List.mem_singleton_self k)
  have isJob' : k' ∈ p'.jobs := List.mem_of_mem_filter (only' ▸ List.mem_singleton_self k')
  rw [jobs, List.mem_singleton] at isJob
  rw [jobs', List.mem_singleton] at isJob'
  subst isJob isJob'
  exact ⟨p, p', k, k', loaded, loaded', jobs, jobs', others, commands, commands'⟩

/-- A job that appends to the commands that all jobs start from. -/
def appendingToDefault : Appending where
  before := [(.str "default", .mapping [(.str "before_script", .list [.str "a"])])]
  key := .str "j"
  pre := [(.str "script", .list [.str "s"])]
  value := .list [.str "b"]
  post := []
  after := []
  isJob := by decide +kernel
  last := by simp
  once := by simp

theorem append_loses_default : ¬∀ (a : Appending) (p p' : Pipeline),
    ofFields (a.definition a.block) = .ok p → ofFields (a.definition a.plainBlock) = .ok p' →
      ∀ j ∈ p.jobs, ∀ j' ∈ p'.jobs, j.name = a.name → j'.name = a.name →
        ∀ added, Field.commandsOfItems? a.value.asList = some added →
          j.beforeScript = j'.beforeScript ++ added ∧ j = { j' with beforeScript := j.beforeScript } := by
  intro always
  obtain ⟨p, j, loaded, jobs, name, commands⟩ := loaded_of_commandsBefore? (show commandsBefore?
    (appendingToDefault.definition appendingToDefault.block) = some [("j", ["b"])] by decide +kernel)
  obtain ⟨p', j', loaded', jobs', name', commands'⟩ := loaded_of_commandsBefore? (show commandsBefore?
    (appendingToDefault.definition appendingToDefault.plainBlock) = some [("j", ["a"])] by decide +kernel)
  obtain ⟨appended, -⟩ := always appendingToDefault p p' loaded loaded' j (by simp [jobs]) j'
    (by simp [jobs']) name name' ["b"] (by decide +kernel)
  rw [commands, commands'] at appended
  exact absurd appended (by decide)

end Pipeline

end Conveyor
