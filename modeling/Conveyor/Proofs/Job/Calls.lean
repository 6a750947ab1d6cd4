import Conveyor.Job.Lifecycle
import Conveyor.Proofs.Files.Change

/-!
What a job asks of its store, its runner and the file system. A plan of calls is followed up to the
first that fails, and only calls change the world.
-/

namespace Conveyor

inductive Call
  | resolveKey (c : CacheSpec)
  | restore (c : CacheSpec) (key : String)
  | prepare
  | command (phase : Phase) (w : Workspace) (line : String)
  | save (c : CacheSpec) (key : String)
  | prune (c : CacheSpec) (keep : Int)

namespace Call

def isCommand : Call → Bool
  | .command _ _ _ => true
  | _ => false

def isSave : Call → Bool
  | .save _ _ => true
  | _ => false

/-- The cache and the key of a request to a store. -/
def request? : Call → Option (CacheSpec × String)
  | .restore c key | .save c key => some (c, key)
  | _ => none

end Call

/-- The failure of a command, whether the job has it from an exit status or the runner raised it. -/
def JobFailure.isOfCommand : JobFailure → Bool
  | .error (.command _ _) => true
  | _ => false

theorem JobFailure.isOfCommand_iff (f : JobFailure) :
    f.isOfCommand = true ↔ ∃ phase failed, f = .error (.command phase failed) := by
  rcases f with e | f
  · cases e <;> simp [isOfCommand]
  · simp [isOfCommand]

variable {σ : Type}

def failure? {α : Type} : Except JobFailure α → Option JobFailure
  | .ok _ => none
  | .error f => some f

theorem failure?_eq_some {α : Type} (answer : Except JobFailure α) (f : JobFailure) :
    failure? answer = some f ↔ answer = .error f := by
  cases answer <;> simp [failure?]

/-- How an action of a store ends for a job. -/
def Action.outcome {α : Type} (a : Action σ α) (w : World σ) : Option JobFailure × World σ :=
  (failure? ((a.run.run w).1.mapError .ofFault), (a.run.run w).2)

theorem Action.outcome_ok {α : Type} {a : Action σ α} {w w' : World σ} {b : α}
    (run : a.run.run w = (.ok b, w')) : a.outcome w = (none, w') := by
  rw [outcome, run]
  rfl

theorem Action.outcome_error {α : Type} {a : Action σ α} {w w' : World σ} {f : Fault}
    (run : a.run.run w = (.error f, w')) : a.outcome w = (some (.ofFault f), w') := by
  rw [outcome, run]
  rfl

theorem Action.of_outcome_eq_none {α : Type} {a : Action σ α} {w w' : World σ}
    (h : a.outcome w = (none, w')) : ∃ b, a.run.run w = (.ok b, w') := by
  obtain ⟨none, rfl⟩ := Prod.mk.inj h
  match run : a.run.run w with
  | (.ok b, w') => exact ⟨b, rfl⟩
  | (.error f, w') =>
      rw [run] at none
      cases none

namespace JobSetting

/-- What a call of a job comes to: its failure, if it fails, and the world that it leaves. -/
def perform (g : JobSetting σ) (job : Job) : Call → World σ → Option JobFailure × World σ
  | .resolveKey c, w => (failure? (g.resolveKey job c w.files), w)
  | .restore c key, w => (g.store.restoreCache c g.project key).outcome w
  | .prepare, w =>
    let (answer, t) := job.prepare (g.environment job) g.globals g.project w.files
    (failure? answer, { w with files := t })
  | .command phase place line, w =>
    match (g.runner line place.environment place.project).run.run w with
    | (.ok r, w) => (if r.isOk then none else some (.error (.command phase (r.failure job.name))), w)
    | (.error f, w) => (some (.ofFault f), w)
  | .save c key, w => (g.store.save key c.paths g.project).outcome w
  | .prune c keep, w =>
    match g.store.prune with
    | some prune => (prune c.scope keep).outcome w
    | none => (none, w)

end JobSetting

/-- A call that was made, with what it came to. -/
structure Happening (σ : Type) where
  call : Call
  before : World σ
  failure : Option JobFailure
  after : World σ

/-- Nothing but the commands went wrong. -/
def Happening.isExcused (h : Happening σ) : Bool :=
  match h.failure with
  | none => true
  | some f => h.call.isCommand && f.isOfCommand

/-- Every call went well: all commands have exited with zero. -/
def allWell (steps : List (Happening σ)) : Bool := steps.all (·.failure.isNone)

def allExcused (steps : List (Happening σ)) : Bool := steps.all (·.isExcused)

theorem allExcused_iff (steps : List (Happening σ)) : allExcused steps = true ↔
    ∀ e ∈ steps, ∀ f, e.failure = some f → e.call.isCommand = true ∧ f.isOfCommand = true := by
  rw [allExcused, List.all_eq_true]
  refine forall₂_congr fun e _ => ?_
  rw [Happening.isExcused]
  cases e.failure <;> simp

/-- A plan of calls is followed up to its end, or up to the first call that fails. -/
inductive Proceeds (g : JobSetting σ) (job : Job) :
    World σ → List Call → List (Happening σ) → Option JobFailure → World σ → Prop
  | done (w : World σ) : Proceeds g job w [] [] none w
  | next {w w' w'' : World σ} {call : Call} {plan : List Call} {made : List (Happening σ)}
      {failure : Option JobFailure} (performed : g.perform job call w = (none, w'))
      (rest : Proceeds g job w' plan made failure w'') :
      Proceeds g job w (call :: plan) (⟨call, w, none, w'⟩ :: made) failure w''
  | stop {w w' : World σ} {call : Call} {plan : List Call} {f : JobFailure}
      (performed : g.perform job call w = (some f, w')) :
      Proceeds g job w (call :: plan) [⟨call, w, some f, w'⟩] (some f) w'

namespace Proceeds

variable {g : JobSetting σ} {job : Job} {w w' : World σ} {plan : List Call} {made : List (Happening σ)}
  {failure : Option JobFailure}

theorem single {call : Call} (performed : g.perform job call w = (failure, w')) :
    Proceeds g job w [call] [⟨call, w, failure, w'⟩] failure w' := by
  cases failure with
  | none => exact .next performed (.done w')
  | some f => exact .stop performed

theorem append {w'' : World σ} {plan' : List Call} {made' : List (Happening σ)}
    (first : Proceeds g job w plan made none w') (second : Proceeds g job w' plan' made' failure w'') :
    Proceeds g job w (plan ++ plan') (made ++ made') failure w'' := by
  generalize hnone : none = failed at first
  induction first with
  | done => exact second
  | next performed _ ih => exact .next performed (ih second hnone)
  | stop => cases hnone

theorem stopped {f : JobFailure} (h : Proceeds g job w plan made (some f) w') (plan' : List Call) :
    Proceeds g job w (plan ++ plan') made (some f) w' := by
  generalize hsome : some f = failed at h
  induction h with
  | done => cases hsome
  | next performed _ ih => exact .next performed (ih hsome)
  | stop performed => exact .stop performed

/-- Following a plan and then another is following both, unless the first comes to a failure. -/
theorem of_append {plan' : List Call} (h : Proceeds g job w (plan ++ plan') made failure w') :
    (∃ f, failure = some f ∧ Proceeds g job w plan made (some f) w') ∨
      ∃ first second between, made = first ++ second ∧ Proceeds g job w plan first none between ∧
        Proceeds g job between plan' second failure w' := by
  induction plan generalizing w made with
  | nil => exact .inr ⟨[], made, w, rfl, .done w, h⟩
  | cons call plan ih =>
      cases h with
      | stop performed => exact .inl ⟨_, rfl, .stop performed⟩
      | next performed rest =>
          rcases ih rest with ⟨f, failed, begun⟩ | ⟨first, second, between, rfl, begun, onward⟩
          · exact .inl ⟨f, failed, .next performed begun⟩
          · exact .inr ⟨_ :: first, second, between, rfl, .next performed begun, onward⟩

/-- The calls that are made begin the plan; they are all of it unless one fails. -/
theorem calls (h : Proceeds g job w plan made failure w') : made.map (·.call) <+: plan := by
  induction h with
  | done => exact List.prefix_refl []
  | next _ _ ih => exact List.cons_prefix_cons.mpr ⟨rfl, ih⟩
  | stop => exact List.cons_prefix_cons.mpr ⟨rfl, List.nil_prefix⟩

theorem first {call : Call} (h : Proceeds g job w (call :: plan) made failure w') :
    (g.perform job call w).1 = none ∨ ∃ f, made = [⟨call, w, some f, w'⟩] := by
  cases h with
  | next performed _ => exact .inl (by rw [performed])
  | stop _ => exact .inr ⟨_, rfl⟩

theorem mem_first {call : Call} (h : Proceeds g job w (call :: plan) made failure w') :
    ∃ e ∈ made, e.call = call := by
  cases h with
  | next | stop => exact ⟨_, List.mem_cons_self, rfl⟩

theorem mem_plan (h : Proceeds g job w plan made failure w') {e : Happening σ} (he : e ∈ made) :
    e.call ∈ plan :=
  h.calls.subset (List.mem_map.mpr ⟨e, he, rfl⟩)

theorem performed (h : Proceeds g job w plan made failure w') :
    ∀ e ∈ made, g.perform job e.call e.before = (e.failure, e.after) := by
  induction h with
  | done => simp
  | next performed _ ih => exact List.forall_mem_cons.mpr ⟨performed, ih⟩
  | stop performed => simpa using performed

/-- The failure is that of the last call, and the only one. -/
theorem failure_iff (h : Proceeds g job w plan made failure w') (f : JobFailure) :
    failure = some f ↔ ∃ e ∈ made, e.failure = some f := by
  induction h with
  | done => simp
  | next _ _ ih => simpa using ih
  | stop => simp

/-- Only the last call fails. -/
theorem getLast?_of_failure (h : Proceeds g job w plan made failure w') {e : Happening σ} (he : e ∈ made)
    {f : JobFailure} (failed : e.failure = some f) : made.getLast? = some e := by
  induction h with
  | done => cases he
  | next _ rest ih =>
      rcases List.mem_cons.mp he with rfl | later
      · cases failed
      · rw [List.getLast?_cons, ih later]
        rfl
  | stop => rw [List.mem_singleton.mp he, List.getLast?_singleton]

theorem allWell_eq (h : Proceeds g job w plan made failure w') : allWell made = failure.isNone := by
  induction h with
  | done => rfl
  | next _ _ ih => simpa [allWell] using ih
  | stop => rfl

theorem allExcused_of_none (h : Proceeds g job w plan made none w') : allExcused made = true := by
  have well : made.all (·.failure.isNone) = true := h.allWell_eq
  rw [List.all_eq_true] at well
  refine List.all_eq_true.mpr fun e he => ?_
  have none := well e he
  rw [Option.isNone_iff_eq_none] at none
  rw [Happening.isExcused, none]

/-- A failure is excused if it is that of a command, and a command failed. -/
theorem allExcused_eq {f : JobFailure} (h : Proceeds g job w plan made (some f) w') {isCommand : Bool}
    (same : ∀ call ∈ plan, call.isCommand = isCommand) :
    allExcused made = (isCommand && f.isOfCommand) := by
  generalize hsome : some f = failed at h
  induction h with
  | done => cases hsome
  | next _ _ ih =>
      have rest := ih (fun call hcall => same call (List.mem_cons_of_mem _ hcall)) hsome
      rw [← rest]
      simp [allExcused, Happening.isExcused]
  | stop =>
      cases hsome
      simp [allExcused, Happening.isExcused, same _ List.mem_cons_self]

/-- What holds of the world before some calls and not after them came to an end in one of the calls. -/
theorem ends (h : Proceeds g job w plan made failure w') {p : World σ → Prop} (before : p w)
    (after : ¬p w') : ∃ e ∈ made, p e.before ∧ ¬p e.after := by
  induction h with
  | done => exact absurd before after
  | @next w w₁ _ _ _ _ _ _ _ ih =>
      by_cases first : p w₁
      · obtain ⟨e, he, found⟩ := ih first after
        exact ⟨e, List.mem_cons_of_mem _ he, found⟩
      · exact ⟨_, List.mem_cons_self, before, first⟩
  | stop => exact ⟨_, List.mem_cons_self, before, after⟩

/-- Following the same plan from the same world comes to the same. -/
theorem unique {w'' : World σ} {made' : List (Happening σ)} {failure' : Option JobFailure}
    (h : Proceeds g job w plan made failure w') (h' : Proceeds g job w plan made' failure' w'') :
    made = made' ∧ failure = failure' ∧ w' = w'' := by
  induction h generalizing made' with
  | done =>
      cases h'
      exact ⟨rfl, rfl, rfl⟩
  | next performed _ ih =>
      cases h' with
      | next performed' rest =>
          cases performed.symm.trans performed'
          obtain ⟨rfl, rfl, rfl⟩ := ih rest
          exact ⟨rfl, rfl, rfl⟩
      | stop performed' => cases performed.symm.trans performed'
  | stop performed =>
      cases h' with
      | next performed' _ => cases performed.symm.trans performed'
      | stop performed' =>
          cases performed.symm.trans performed'
          exact ⟨rfl, rfl, rfl⟩

end Proceeds

/-- Something that was saved: a file of a store, which holds an archive or a manifest, or a blob. -/
inductive Saved
  | file (place : Location) (content : Content)
  | blob (key : String) (files : Blob)

/-- It is there as it was saved. -/
def Saved.Holds : Saved → World σ → Prop
  | .file place content, w => ∃ modified, w.files.entryAt? place = some (.file content modified)
  | .blob key files, w => w.blobs.get? key = some files

theorem Saved.Holds.of_grows {x : Saved} {w : World σ} {t : FileTree} (holds : x.Holds w)
    (grows : w.files.GrowsTo t) : x.Holds { w with files := t } := by
  cases x with
  | file place content =>
      obtain ⟨modified, there⟩ := holds
      exact ⟨modified, grows _ _ there⟩
  | blob key files => exact holds

theorem makeWorkspaceDirectories_grows (job : String) (t : FileTree) (places : List Location) :
    t.GrowsTo (makeWorkspaceDirectories job t places).2 := by
  induction places generalizing t with
  | nil => exact .refl t
  | cons place rest ih =>
      have made := t.makeDirectories_grows place
      unfold makeWorkspaceDirectories
      split
      · exact .refl t
      · exact ih t
      · exact .refl t
      · exact .refl t
      · split
        · rename_i run
          rw [run] at made
          exact made.trans (ih _)
        · rename_i run
          rwa [run] at made

theorem Job.prepare_grows (job : Job) (base : Environment) (globals : Variables) (project : Location)
    (t : FileTree) : t.GrowsTo (job.prepare base globals project t).2 := by
  unfold prepare
  extract_lets environment plan
  clear_value plan
  cases plan with
  | error f => exact .refl t
  | ok w =>
      have made := makeWorkspaceDirectories_grows job.name t w.directories
      dsimp only
      split <;> rename_i run <;> rwa [run] at made

/-- Only a store and a runner take away what was saved; a key and a workspace take nothing away. -/
theorem Saved.Holds.perform {g : JobSetting σ} {job : Job} {x : Saved} {w : World σ} (holds : x.Holds w)
    {call : Call} (own : (∃ c, call = .resolveKey c) ∨ call = .prepare) :
    x.Holds (g.perform job call w).2 := by
  rcases own with ⟨c, rfl⟩ | rfl
  · exact holds
  · exact holds.of_grows (job.prepare_grows (g.environment job) g.globals g.project w.files)

end Conveyor
