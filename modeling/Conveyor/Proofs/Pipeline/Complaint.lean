import Conveyor.Proofs.Pipeline.Order
import Conveyor.Proofs.Pipeline.Stumble

/-!
How loading ends when it does not end in a pipeline. All that the fields of a definition can have wrong
is declared, but a field whose name is no text is not looked for: it comes out where a job is merged
that leads to it, if nothing before it was wrong.
-/

namespace Conveyor

@[simp] theorem LoadError.isDeclared_definition (e : DefinitionError) :
    (LoadError.definition e).IsDeclared := trivial

@[simp] theorem LoadError.isDeclared_reference (r : UndefinedReference) :
    (LoadError.reference r).IsDeclared := trivial

/-- A step of loading that fails only in ways that loading declares. -/
structure FailsAsDeclared {α : Type} (x : Except LoadError α) : Prop where
  declared : ∀ e, x = .error e → e.IsDeclared

/-- A step of loading that fails in ways that loading declares, or else just at certain fields. -/
structure FailsAt {α : Type} (keys : Scalar → Prop) (x : Except LoadError α) : Prop where
  kind : ∀ e, x = .error e → e.IsDeclared ∨ ∃ key, e = .keyNotText key
  trips : ∀ key, x = .error (.keyNotText key) ↔ keys key

section

variable {α β : Type}

@[simp] theorem failsAsDeclared_ok (a : α) : FailsAsDeclared (.ok a : Except LoadError α) := ⟨nofun⟩

@[simp] theorem failsAsDeclared_pure (a : α) : FailsAsDeclared (pure a : Except LoadError α) := ⟨nofun⟩

@[simp] theorem failsAsDeclared_error_iff (e : LoadError) :
    FailsAsDeclared (.error e : Except LoadError α) ↔ e.IsDeclared :=
  ⟨fun h => h.declared e rfl, fun h => ⟨fun _ same => Except.error.inj same ▸ h⟩⟩

@[simp] theorem failsAsDeclared_throw_iff (e : LoadError) :
    FailsAsDeclared (throw e : Except LoadError α) ↔ e.IsDeclared :=
  failsAsDeclared_error_iff e

variable {x : Except LoadError α} {f : α → Except LoadError β}

namespace FailsAsDeclared

theorem bind (hx : FailsAsDeclared x) (hf : ∀ a, FailsAsDeclared (f a)) : FailsAsDeclared (x >>= f) := by
  cases x with
  | ok a => exact hf a
  | error e => exact ⟨fun _ same => hx.declared _ (by cases same; rfl)⟩

theorem map (hx : FailsAsDeclared x) (g : α → β) : FailsAsDeclared (g <$> x) := by
  cases x with
  | ok a => exact ⟨nofun⟩
  | error e => exact ⟨fun _ same => hx.declared _ (by cases same; rfl)⟩

theorem mapM {γ : Type} {g : γ → Except LoadError α} (hg : ∀ c, FailsAsDeclared (g c)) (l : List γ) :
    FailsAsDeclared (l.mapM g) := by
  induction l with
  | nil => simp
  | cons c rest ih =>
      rw [List.mapM_cons]
      exact (hg c).bind fun a => ih.bind fun _ => by simp

theorem foldlM {γ : Type} {g : α → γ → Except LoadError α} (hg : ∀ a c, FailsAsDeclared (g a c))
    (l : List γ) (a : α) : FailsAsDeclared (l.foldlM g a) := by
  induction l generalizing a with
  | nil => simp
  | cons c rest ih =>
      rw [List.foldlM_cons]
      exact (hg a c).bind ih

theorem failsAt (hx : FailsAsDeclared x) : FailsAt (fun _ => False) x where
  kind e h := .inl (hx.declared e h)
  trips _ := iff_of_false (fun h => hx.declared _ h) id

end FailsAsDeclared

theorem FailsAt.bind {keys : Scalar → Prop} {next : α → Scalar → Prop} (hx : FailsAt keys x)
    (hf : ∀ a, x = .ok a → FailsAt (next a) (f a)) :
    FailsAt (fun key => keys key ∨ ∃ a, x = .ok a ∧ next a key) (x >>= f) := by
  cases x with
  | error e =>
      have unchanged : (Except.error e >>= f) = .error e := rfl
      refine ⟨fun e' h => hx.kind e' (by cases h; rfl), fun key => ?_⟩
      simpa [unchanged] using hx.trips key
  | ok a =>
      have onward : (Except.ok a >>= f) = f a := rfl
      refine ⟨(hf a rfl).kind, fun key => ?_⟩
      simpa [onward, ← hx.trips key] using (hf a rfl).trips key

theorem FailsAt.congr {keys keys' : Scalar → Prop} (h : FailsAt keys x)
    (same : ∀ key, keys key ↔ keys' key) :
    FailsAt keys' x :=
  ⟨h.kind, fun key => (h.trips key).trans (same key)⟩

theorem FailsAsDeclared.then {next : α → Scalar → Prop} (hx : FailsAsDeclared x)
    (hf : ∀ a, x = .ok a → FailsAt (next a) (f a)) :
    FailsAt (fun key => ∃ a, x = .ok a ∧ next a key) (x >>= f) := by
  simpa using hx.failsAt.bind hf

end

namespace Field

variable (job field : String)

theorem textList_failsAsDeclared (v : Value) : FailsAsDeclared (textList job field v) := by
  unfold textList
  split <;> try split
  all_goals simp

theorem commands_failsAsDeclared (v : Value) : FailsAsDeclared (commands job field v) := by
  unfold commands
  split <;> try split
  all_goals simp

theorem variableText_failsAsDeclared (place key : String) (v : Value) :
    FailsAsDeclared (variableText place key v) := by
  unfold variableText
  split <;> simp

theorem bindings_failsAsDeclared (place : String) (v : Value) : FailsAsDeclared (bindings place v) := by
  unfold bindings
  split
  · simp
  · refine (FailsAsDeclared.mapM ?_ _).bind fun _ => by simp
    exact fun ⟨k, v⟩ => (variableText_failsAsDeclared place k.text v).bind fun _ => by simp
  · simp

theorem stages_failsAsDeclared (v : Value) : FailsAsDeclared (stages v) := by
  unfold stages
  extract_lets number
  have numbered : ∀ names, FailsAsDeclared (number names) := by
    intro names
    unfold number
    split <;> simp
  split <;> try split
  all_goals exact FailsAsDeclared.bind (by simp) numbered

theorem policy_failsAsDeclared (v : Value) : FailsAsDeclared (policy job v) := by
  unfold policy
  split <;> try split
  all_goals simp

theorem cache_failsAsDeclared (v : Value) : FailsAsDeclared (cache job v) := by
  unfold cache
  split
  · simp
  · extract_lets raw build
    have built : ∀ parts, FailsAsDeclared (build parts) := fun _ =>
      (policy_failsAsDeclared ..).bind fun _ => (textList_failsAsDeclared ..).bind fun _ => by simp
    split
    · refine (textList_failsAsDeclared ..).bind fun files => ?_
      split <;> exact FailsAsDeclared.bind (by simp) built
    all_goals exact FailsAsDeclared.bind (by simp) built
  · simp

theorem kinds_failsAsDeclared (v : Value) : FailsAsDeclared (kinds job field v) := by
  unfold kinds
  split <;> exact textList_failsAsDeclared ..

theorem rule_failsAsDeclared (v : Value) : FailsAsDeclared (rule job v) := by
  unfold rule
  split
  · extract_lets
    split <;> try split
    all_goals simp
  · simp

theorem compileRules_failsAsDeclared (allowed excluded : List String) (rules : List Value) :
    FailsAsDeclared (compileRules job allowed excluded rules) := by
  induction rules generalizing allowed excluded with
  | nil => simp [compileRules]
  | cons v rest ih =>
      unfold compileRules
      refine (rule_failsAsDeclared job v).bind fun r => ?_
      split
      · simp
      · simp
      · extract_lets kind
        split
        · exact ih _ _
        · split <;> exact ih _ _

theorem trigger_failsAsDeclared (fields : Fields) : FailsAsDeclared (trigger job fields) := by
  unfold trigger
  split
  · refine (kinds_failsAsDeclared ..).bind fun allowed => (kinds_failsAsDeclared ..).bind fun excluded => ?_
    split <;> simp
  · split
    · exact (compileRules_failsAsDeclared ..).map _
    · simp
  · simp

theorem allowFailure_failsAsDeclared (v : Option Value) : FailsAsDeclared (allowFailure job v) := by
  unfold allowFailure
  split <;> simp

end Field

namespace Pipeline

open Blocks

theorem buildJob_failsAsDeclared (name : String) (fields : Fields) (stageNames templates : List String) :
    FailsAsDeclared (buildJob name fields stageNames templates) := by
  unfold buildJob
  extract_lets stage build
  have built : ∀ u, FailsAsDeclared (build u) := by
    intro u
    refine (Field.commands_failsAsDeclared ..).bind fun script => ?_
    extract_lets finish
    have finished : ∀ u, FailsAsDeclared (finish u) := fun _ =>
      (Field.allowFailure_failsAsDeclared ..).bind fun _ =>
      (Field.commands_failsAsDeclared ..).bind fun _ => (Field.cache_failsAsDeclared ..).bind fun _ =>
      (Field.trigger_failsAsDeclared ..).bind fun _ => (Field.bindings_failsAsDeclared ..).bind fun _ =>
      by simp
    split
    · exact FailsAsDeclared.bind (by simp) finished
    · exact finished ()
  split
  · exact FailsAsDeclared.bind (by simp) built
  · exact built ()

theorem blocksOf_failsAsDeclared (fields : Fields) : FailsAsDeclared (blocksOf fields) := by
  refine FailsAsDeclared.foldlM (fun blocks e => ?_) _ _
  dsimp only
  split
  · simp
  · split <;> simp

theorem defaultsOf_failsAsDeclared (fields : Fields) : FailsAsDeclared (defaultsOf fields) := by
  unfold defaultsOf
  split
  · simp
  · split <;> simp

section

variable (defaults : Fields) (blocks : Blocks) (stageNames : List String)

/-- A block from which a job is built. -/
def MakesJob (name : String) : Prop :=
  ∃ block parents own fields job, Declares blocks name block parents ∧ Expands blocks name own ∧
    overlay defaults own = .ok fields ∧ buildJob name fields stageNames parents = .ok job

/-- A field whose name is no text is met when a block is resolved, or when its fields are merged over
those that all jobs start from. -/
inductive TripsOver (name : String) (key : Scalar) : Prop
  | resolving (h : Stumbles blocks name key)
  | defaulting {own : Fields} (expands : Expands blocks name own)
      (fails : overlay defaults own = .error (.keyNotText key))

/-- The first of some blocks that is to be a job and makes none meets a field whose name is no text. -/
inductive TripsFirst (key : Scalar) : List String → Prop
  | here {name : String} {rest : List String} (isJob : isTemplate name = false)
      (h : TripsOver defaults blocks name key) : TripsFirst key (name :: rest)
  | later {name : String} {rest : List String}
      (made : isTemplate name = false → MakesJob defaults blocks stageNames name)
      (h : TripsFirst key rest) : TripsFirst key (name :: rest)

end

section

variable {defaults : Fields} {blocks : Blocks} {stageNames : List String}

theorem overlay_failsAt (base override : Fields) :
    FailsAt (fun key => overlay base override = .error (.keyNotText key)) (overlay base override) where
  kind e h := by
    obtain ⟨key, rfl, -⟩ := overlay_error h
    exact .inr ⟨key, rfl⟩
  trips _ := .rfl

theorem templatesOf_declares {name : String} {block : Fields} {parents : List String}
    (declares : Declares blocks name block parents) :
    templatesOf name ((blocks.get? name).getD []) = .ok parents := by
  rw [declares.get, Option.getD_some]
  rcases templatesOf_spec name block with ⟨parents', read, names⟩ | ⟨-, bad⟩
  · rw [read, names.unique declares.names]
  · exact absurd declares.names (bad parents)

namespace TripsFirst

variable {name : String} {key : Scalar} {rest : List String}

theorem cons_template_iff (template : isTemplate name = true) :
    TripsFirst defaults blocks stageNames key (name :: rest) ↔
      TripsFirst defaults blocks stageNames key rest := by
  refine ⟨fun h => ?_, .later (by simp [template])⟩
  cases h with
  | here isJob => simp [template] at isJob
  | later _ h => exact h

theorem cons_fieldless_iff (isJob : isTemplate name = false)
    (fieldless : ∀ fields, ¬Expands blocks name fields) :
    TripsFirst defaults blocks stageNames key (name :: rest) ↔ Stumbles blocks name key := by
  refine ⟨fun h => ?_, fun h => .here isJob (.resolving h)⟩
  cases h with
  | here _ h =>
      cases h with
      | resolving h => exact h
      | defaulting expands => exact absurd expands (fieldless _)
  | later made _ =>
      obtain ⟨_, _, own, _, _, _, expands, _⟩ := made isJob
      exact absurd expands (fieldless own)

theorem cons_expands_iff (isJob : isTemplate name = false) {block own : Fields} {parents : List String}
    (declares : Declares blocks name block parents) (expands : Expands blocks name own) :
    TripsFirst defaults blocks stageNames key (name :: rest) ↔
      overlay defaults own = .error (.keyNotText key) ∨
        ∃ fields, overlay defaults own = .ok fields ∧
          ∃ job, buildJob name fields stageNames parents = .ok job ∧
            TripsFirst defaults blocks stageNames key rest := by
  constructor
  · intro h
    cases h with
    | here _ h =>
        cases h with
        | resolving h => exact absurd expands h.not_expands
        | defaulting expands' fails => exact .inl (expands.unique expands' ▸ fails)
    | later made h =>
        obtain ⟨block', parents', own', fields, job, declares', expands', merge, built⟩ := made isJob
        obtain ⟨rfl, rfl⟩ := declares.unique declares'
        obtain rfl := expands.unique expands'
        exact .inr ⟨fields, merge, job, built, h⟩
  · rintro (fails | ⟨fields, merge, job, built, h⟩)
    · exact .here isJob (.defaulting expands fails)
    · exact .later (fun _ => ⟨block, parents, own, fields, job, declares, expands, merge, built⟩) h

end TripsFirst

/-- Whatever was resolved before, the jobs are built unless something declared is wrong with one, or the
first that cannot be built meets a field whose name is no text. -/
theorem buildJobs_failsAt {names : List String} (there : ∀ name ∈ names, name ∈ blocks.keys)
    {known : Resolved} (remembered : Remembered blocks known) :
    FailsAt (TripsFirst defaults blocks stageNames · names)
      (buildJobs defaults blocks stageNames names known) := by
  induction names generalizing known with
  | nil => exact ⟨nofun, fun key => iff_of_false nofun nofun⟩
  | cons name rest ih =>
      obtain ⟨thereFirst, thereRest⟩ := List.forall_mem_cons.mp there
      rw [buildJobs]
      split
      · rename_i template
        exact (ih thereRest remembered).congr fun key => (TripsFirst.cons_template_iff template).symm
      · rename_i isJob
        have isJob : isTemplate name = false := by simpa using isJob
        have answers := complains_resolve remembered thereFirst
        generalize blocks.resolve name [] known = answer at answers
        cases answers with
        | @complaint e _ complains _ =>
            refine ⟨fun e' h => Except.error.inj h ▸ complains.kind, fun key => ?_⟩
            rw [TripsFirst.cons_fieldless_iff isJob complains.fieldless, ← complains.stumbles key,
              Except.error.injEq]
        | @resolved own known expands remembered =>
            obtain ⟨block, parents, _, declares, _⟩ := expands_iff.mp expands
            have steps := (overlay_failsAt defaults own).bind fun fields _ =>
              (failsAsDeclared_ok parents).then fun parents _ =>
              (buildJob_failsAsDeclared name fields stageNames parents).then fun job _ =>
              (ih thereRest remembered).bind fun jobs _ => (failsAsDeclared_pure (job :: jobs)).failsAt
            rw [templatesOf_declares declares]
            refine steps.congr fun key => ?_
            simp [TripsFirst.cons_expands_iff isJob declares expands]

theorem TripsFirst.writes {key : Scalar} {names : List String}
    (h : TripsFirst defaults blocks stageNames key names) :
    (∀ s, key ≠ .str s) ∧ ∃ name ∈ names, isTemplate name = false ∧ Writes blocks name key := by
  induction h with
  | @here name rest isJob h =>
      have writes : (∀ s, key ≠ .str s) ∧ Writes blocks name key := by
        cases h with
        | resolving h => exact h.writes
        | defaulting expands fails =>
            obtain ⟨_, same, notText, spells⟩ := overlay_error fails
            cases same
            exact ⟨notText, expands.writes notText spells⟩
      exact ⟨writes.1, name, by simp, isJob, writes.2⟩
  | later _ _ ih =>
      obtain ⟨notText, name, hname, found⟩ := ih
      exact ⟨notText, name, List.mem_cons_of_mem _ hname, found⟩

end

/-- A job that writes a number for the name of a field. -/
def numberedField : Fields := [
  (.str "j", .mapping [(.int 1, .str "x"), (.str "script", .list [.str "s"])])]

end Pipeline

end Conveyor
