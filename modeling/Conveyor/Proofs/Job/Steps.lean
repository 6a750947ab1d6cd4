import Conveyor.Proofs.Job.Calls
import Conveyor.Proofs.Job.Conclusion

/-!
The steps of a job as plans of calls. Whatever a step tells, it changes the world by its calls alone,
and it fails with the failure that stopped them; so the calls of a whole job come in one order.
-/

namespace Conveyor

variable {σ α β : Type}

/-- Whether a cache is saved after commands that succeeded, or after commands of which one failed. -/
def CacheSpec.asksSave (c : CacheSpec) (succeeded : Bool) : Bool :=
  !c.paths.isEmpty &&
    match c.policy.shouldSave succeeded with
    | .ok due => due
    | .error _ => false

theorem CacheSpec.asksSave_iff (c : CacheSpec) (succeeded : Bool) :
    c.asksSave succeeded = true ↔ c.paths ≠ [] ∧ c.policy.shouldSave succeeded = .ok true := by
  rw [asksSave, Bool.and_eq_true]
  cases c.policy.shouldSave succeeded <;> simp

theorem SavePolicy.shouldSave_cases (p : SavePolicy) (succeeded : Bool) :
    (∃ due, p.shouldSave succeeded = .ok due) ∨
      ∃ word, p = .unknown word ∧ p.shouldSave succeeded = .error (.unknownPolicy word) := by
  cases p with
  | unknown word => exact .inr ⟨word, rfl, rfl⟩
  | always | onFailure | onSuccess => exact .inl ⟨_, rfl⟩

/-- Whether a cache is saved at the end of a job. -/
def CacheSpec.saveDue (c : CacheSpec) (steps : List (Happening σ)) : Bool :=
  allExcused steps && c.asksSave (allWell steps)

namespace JobSetting

/-- The calls before the commands. -/
def openingCalls (job : Job) (key : String) : List Call :=
  (job.cache.toList.flatMap fun c => [.resolveKey c, .restore c key]) ++ [.prepare]

def commandCalls (job : Job) (w : Workspace) : List Call :=
  job.beforeScript.map (.command .setup w) ++ job.script.map (.command .script w)

def pruneCalls (g : JobSetting σ) (c : CacheSpec) : List Call :=
  match g.store.prune, g.keep with
  | some _, some keep => if keep ≠ 0 then [.prune c keep] else []
  | _, _ => []

/-- The calls after the commands. -/
def closingCalls (g : JobSetting σ) (job : Job) (key : String) (steps : List (Happening σ)) : List Call :=
  match job.cache with
  | some c =>
    if c.saveDue steps then .save c key :: (if allWell steps then g.pruneCalls c else []) else []
  | none => []

/-- What a step does to the world, it does by the calls of a plan. -/
def Follows (g : JobSetting σ) (job : Job) (x : JobStep σ α) (s : Session σ) (plan : List Call) : Prop :=
  ∃ made, Proceeds g job s.world plan made (failure? (x.run.run s).1) (x.run.run s).2.world

section

variable {g : JobSetting σ} {job : Job}

theorem Follows.bind {x : JobStep σ α} {f : α → JobStep σ β} {s : Session σ} {plan plan' : List Call}
    (hx : Follows g job x s plan)
    (hf : ∀ a s', x.run.run s = (.ok a, s') → Follows g job (f a) s' plan') :
    Follows g job (x >>= f) s (plan ++ plan') := by
  obtain ⟨made, proceeds⟩ := hx
  match hrun : x.run.run s with
  | (.ok a, s') =>
      obtain ⟨made', proceeds'⟩ := hf a s' hrun
      rw [hrun] at proceeds
      rw [Follows, run_bind_ok hrun]
      exact ⟨made ++ made', proceeds.append proceeds'⟩
  | (.error e, s') =>
      rw [hrun] at proceeds
      rw [Follows, run_bind_error hrun]
      exact ⟨made, proceeds.stopped plan'⟩

theorem follows_tell (n : Notice) (s : Session σ) : Follows g job (JobStep.tell n) s [] :=
  ⟨[], .done _⟩

theorem follows_pure (a : α) (s : Session σ) : Follows g job (pure a) s [] := ⟨[], .done _⟩

theorem follows_ofAction {a : Action σ α} {call : Call} {s : Session σ}
    (performs : g.perform job call s.world = a.outcome s.world) :
    Follows g job (JobStep.ofAction a) s [call] :=
  ⟨_, .single performs⟩

theorem follows_restore (c : CacheSpec) {key : String} (s : Session σ)
    (resolves : ∀ k, g.resolveKey job c s.world.files = .ok k → k = key) :
    Follows g job (g.restore JobStep.tell job c) s [.resolveKey c, .restore c key] ∧
      ∀ k hit s', (g.restore JobStep.tell job c).run.run s = (.ok (k, hit), s') → k = key := by
  have asks : Follows g job (JobStep.ask (g.resolveKey job c)) s [.resolveKey c] := ⟨_, .single rfl⟩
  constructor
  · refine asks.bind fun k s' asked => ?_
    rw [JobStep.run_ask] at asked
    obtain ⟨resolved, rfl⟩ := Prod.mk.inj asked
    rw [resolves k resolved]
    exact (follows_ofAction rfl).bind fun _ s' _ => (follows_tell _ s').bind fun _ _ _ => follows_pure _ _
  · intro k hit s' h
    obtain ⟨k', _, resolved, h⟩ := run_ok_of_bind_ok h
    obtain ⟨_, _, -, h⟩ := run_ok_of_bind_ok h
    obtain ⟨_, _, -, h⟩ := run_ok_of_bind_ok h
    cases h
    exact resolves k (Prod.mk.inj resolved).1

theorem runPhase_cons (run : String → JobStep σ CommandResult) (name : String) (phase : Phase)
    (command : String) (rest : List String) :
    runPhase run name phase (command :: rest) = (do
      let r ← run command
      if r.isOk then runPhase run name phase rest
      else throw (.error (.command phase (r.failure name)))) := by
  unfold runPhase
  rw [firstFailure, bind_assoc]
  congr 1
  funext r
  split <;> rfl

theorem run_runTold (g : JobSetting σ) (job : Job) (w : Workspace) (command : String) (s : Session σ) :
    (g.runTold JobStep.tell job w command).run.run s =
      (((g.runner command w.environment w.project).run.run s.world).1.mapError .ofFault,
        { s.tell (.command job.name command) with
          world := ((g.runner command w.environment w.project).run.run s.world).2 }) := rfl

theorem follows_runPhase (w : Workspace) (phase : Phase) (commands : List String) (s : Session σ) :
    Follows g job (runPhase (g.runTold JobStep.tell job w) job.name phase commands) s
      (commands.map (.command phase w)) := by
  induction commands generalizing s with
  | nil => exact ⟨[], .done _⟩
  | cons command rest ih =>
      rw [runPhase_cons]
      have told := run_runTold g job w command s
      match ran : (g.runner command w.environment w.project).run.run s.world with
      | (.error f, w') =>
          rw [ran] at told
          rw [Follows, run_bind_error told]
          exact ⟨_, .stop (by rw [perform, ran])⟩
      | (.ok r, w') =>
          rw [ran] at told
          rw [Follows, run_bind_ok told]
          cases hr : r.isOk with
          | true =>
              obtain ⟨made, proceeds⟩ := ih { s.tell (.command job.name command) with world := w' }
              exact ⟨_, .next (by simp [perform, ran, hr]) proceeds⟩
          | false => exact ⟨_, .stop (by rw [perform, ran]; simp [hr]; rfl)⟩

theorem follows_runCommands (w : Workspace) (s : Session σ) :
    Follows g job (runCommands (g.runTold JobStep.tell job w) job) s (commandCalls job w) :=
  (follows_runPhase w .setup job.beforeScript s).bind fun _ s' _ =>
    follows_runPhase w .script job.script s'

/-- The restore of a job that has a cache. -/
def restoring (g : JobSetting σ) (job : Job) : JobStep σ (Option (CacheSpec × String × Bool)) :=
  match job.cache with
  | some c => (fun (key, hit) => some (c, key, hit)) <$> g.restore JobStep.tell job c
  | none => pure none

/-- What a job does before its commands. -/
def opening (g : JobSetting σ) (job : Job) :
    JobStep σ (Option (CacheSpec × String × Bool) × Workspace) := do
  let restored ← g.restoring job
  let w ← JobStep.prepare job (g.environment job) g.globals g.project
  return (restored, w)

theorem runJob_eq (g : JobSetting σ) (job : Job) : g.runJob job = (do
    JobStep.tell (.jobStarted job.name)
    let (restored, w) ← g.opening job
    g.runAndSave JobStep.tell job (restored.map fun (c, key, _) => (c, key)) w
    JobStep.tell (.jobSucceeded job.name)
    return {
      name := job.name, stage := job.stage, status := .success
      cacheKey := restored.map fun (_, key, _) => key
      cacheHit := restored.any fun (_, _, hit) => hit
      allowFailure := job.allowFailure }) := by
  unfold runJob runJobTelling opening restoring
  simp only [bind_assoc, pure_bind]
  cases job.cache <;> rfl

theorem follows_restoring {key : String} (s : Session σ)
    (resolves : ∀ c, job.cache = some c → ∀ k, g.resolveKey job c s.world.files = .ok k → k = key) :
    Follows g job (g.restoring job) s
        (job.cache.toList.flatMap fun c => [.resolveKey c, .restore c key]) ∧
      ∀ restored s', (g.restoring job).run.run s = (.ok restored, s') →
        (restored.map fun (c, k, _) => (c, k)) = job.cache.map (·, key) := by
  unfold restoring
  cases hc : job.cache with
  | none =>
      refine ⟨follows_pure _ _, fun restored s' h => ?_⟩
      cases h
      rfl
  | some c =>
      obtain ⟨follows, same⟩ := follows_restore c s (resolves c hc)
      dsimp only
      rw [map_eq_pure_bind]
      refine ⟨follows.bind fun _ _ _ => follows_pure _ _, fun restored s' h => ?_⟩
      obtain ⟨⟨k, hit⟩, _, run, h⟩ := run_ok_of_bind_ok h
      cases h
      rw [same k hit _ run]
      rfl

theorem run_prepare (g : JobSetting σ) (job : Job) (s : Session σ) :
    (JobStep.prepare job (g.environment job) g.globals g.project).run.run s =
      ((job.prepare (g.environment job) g.globals g.project s.world.files).1, { s with
        world := { s.world with
          files := (job.prepare (g.environment job) g.globals g.project s.world.files).2 } }) := rfl

theorem opening_calls {key : String} (s : Session σ)
    (resolves : ∀ c, job.cache = some c → ∀ k, g.resolveKey job c s.world.files = .ok k → k = key) :
    ∃ steps, Proceeds g job s.world (openingCalls job key) steps
        (failure? ((g.opening job).run.run s).1) ((g.opening job).run.run s).2.world ∧
      ∀ restored w, ((g.opening job).run.run s).1 = .ok (restored, w) →
        (restored.map fun (c, k, _) => (c, k)) = job.cache.map (·, key) ∧
          ∃ e ∈ steps, e.call = .prepare ∧
            (job.prepare (g.environment job) g.globals g.project e.before.files).1 = .ok w := by
  obtain ⟨⟨made, proceeds⟩, same⟩ := follows_restoring s resolves
  unfold opening
  match ran : (g.restoring job).run.run s with
  | (.error f, s') =>
      rw [ran] at proceeds
      rw [run_bind_error ran]
      exact ⟨made, proceeds.stopped _, nofun⟩
  | (.ok restored, s') =>
      rw [ran] at proceeds
      rw [run_bind_ok ran]
      have prepares := run_prepare g job s'
      match prepared : job.prepare (g.environment job) g.globals g.project s'.world.files with
      | (.error f, t) =>
          rw [prepared] at prepares
          rw [run_bind_error prepares]
          have performed : g.perform job .prepare s'.world = (some f, { s'.world with files := t }) := by
            rw [perform, prepared]
            rfl
          exact ⟨_, proceeds.append (.single performed), nofun⟩
      | (.ok w, t) =>
          rw [prepared] at prepares
          rw [run_bind_ok prepares]
          have performed : g.perform job .prepare s'.world = (none, { s'.world with files := t }) := by
            rw [perform, prepared]
            rfl
          refine ⟨_, proceeds.append (.single performed), fun restored' w' h => ?_⟩
          cases h
          exact ⟨same _ _ ran, _, List.mem_append_right _ List.mem_cons_self, rfl, by rw [prepared]⟩

theorem run_attempt {x : JobStep σ α} {s s' : Session σ} {answer : Except JobFailure α}
    (h : x.run.run s = (answer, s')) :
    (ExceptT.lift (JobStep.attempt x) : JobStep σ _).run.run s = (.ok answer, s') := by
  rw [ExceptT.run_lift, StateT.run_map, JobStep.attempt, h]
  rfl

theorem run_runAndSave_ok {cache : Option (CacheSpec × String)} {w : Workspace} {s s' : Session σ}
    (ran : (runCommands (g.runTold JobStep.tell job w) job).run.run s = (.ok (), s')) :
    (g.runAndSave JobStep.tell job cache w).run.run s = (match cache with
      | some (c, key) => g.saveAfterSuccess JobStep.tell job c key
      | none => pure ()).run.run s' := by
  unfold runAndSave
  exact run_bind_ok (run_attempt ran)

/-- The step that follows a failure of the commands. -/
def afterFailure (g : JobSetting σ) (job : Job) (cache : Option (CacheSpec × String)) (f : JobFailure) :
    JobStep σ Unit :=
  match f, cache with
  | .error (.command _ _), some (c, key) => g.saveAfterFailure JobStep.tell job c key
  | _, _ => pure ()

theorem run_runAndSave_error {cache : Option (CacheSpec × String)} {w : Workspace} {s s' : Session σ}
    {f : JobFailure} (ran : (runCommands (g.runTold JobStep.tell job w) job).run.run s = (.error f, s')) :
    (g.runAndSave JobStep.tell job cache w).run.run s =
      (do g.afterFailure job cache f; throw f : JobStep σ Unit).run.run s' := by
  unfold runAndSave afterFailure
  refine (run_bind_ok (run_attempt ran)).trans ?_
  rcases f with e | f
  · cases e <;> cases cache <;> rfl
  · cases cache <;> rfl

/-- A step of the end of a job, whose own failure may not matter. -/
def Leaves (g : JobSetting σ) (job : Job) (x : JobStep σ α) (s : Session σ) (plan : List Call) : Prop :=
  ∃ made failure, Proceeds g job s.world plan made failure (x.run.run s).2.world

theorem leaves_nothing {x : JobStep σ α} {s : Session σ} (h : (x.run.run s).2.world = s.world) :
    Leaves g job x s [] :=
  ⟨[], none, h ▸ .done _⟩

theorem follows_prune (c : CacheSpec) (s : Session σ) : Follows g job (g.prune c) s (g.pruneCalls c) := by
  unfold prune pruneCalls
  cases hprune : g.store.prune with
  | none => exact follows_pure _ _
  | some prune =>
      cases g.keep with
      | none => exact follows_pure _ _
      | some keep =>
          dsimp only
          split
          · exact follows_ofAction (by simp only [perform, hprune])
          · exact follows_pure _ _

theorem run_saveCache_asked (st : Store σ) {c : CacheSpec} (project : Location) (key : String)
    {succeeded : Bool} (asks : c.asksSave succeeded = true) (w : World σ) :
    (st.saveCache c project key succeeded).run.run w =
      (((st.save key c.paths project).run.run w).1.map fun _ => true,
        ((st.save key c.paths project).run.run w).2) := by
  obtain ⟨paths, due⟩ := (c.asksSave_iff succeeded).mp asks
  have asked : (Action.ask (fun _ => c.policy.shouldSave succeeded)).run.run w = (.ok true, w) :=
    Action.run_ask_of due
  unfold Store.saveCache
  rw [if_neg (by simpa using paths), run_bind_ok asked, if_pos rfl]
  match saved : (st.save key c.paths project).run.run w with
  | (.ok (), w') => exact run_bind_ok saved
  | (.error f, w') => exact run_bind_error saved

theorem run_saveCache_unasked (st : Store σ) {c : CacheSpec} (project : Location) (key : String)
    {succeeded : Bool} (unasked : c.asksSave succeeded = false) (w : World σ) :
    (st.saveCache c project key succeeded).run.run w = (.ok false, w) ∨
      ∃ word, c.policy = .unknown word ∧
        (st.saveCache c project key succeeded).run.run w = (.error (.unknownPolicy word), w) := by
  unfold Store.saveCache
  split
  · exact .inl rfl
  · rename_i paths
    rcases c.policy.shouldSave_cases succeeded with ⟨due, ok⟩ | ⟨word, unknown, raised⟩
    · cases due with
      | false =>
          rw [run_bind_ok (Action.run_ask_of ok)]
          exact .inl rfl
      | true =>
          have asks := (c.asksSave_iff succeeded).mpr ⟨by simpa using paths, ok⟩
          cases unasked.symm.trans asks
    · exact .inr ⟨word, unknown, run_bind_error (Action.run_ask_of raised)⟩

theorem run_saveAfterFailure (g : JobSetting σ) (job : Job) (c : CacheSpec) (key : String) (s : Session σ) :
    ∃ s', (g.saveAfterFailure JobStep.tell job c key).run.run s = (.ok (), s') ∧
      s'.world = ((g.store.saveCache c g.project key false).run.run s.world).2 := by
  have attempted := JobStep.run_ofAction (Action.attempt (g.store.saveCache c g.project key false)) s
  rw [Action.run_attempt] at attempted
  unfold saveAfterFailure
  match saved : (g.store.saveCache c g.project key false).run.run s.world with
  | (answer, w) =>
      rw [saved] at attempted
      rw [run_bind_ok attempted]
      match answer with
      | .error f => exact ⟨_, rfl, rfl⟩
      | .ok true => exact ⟨_, rfl, rfl⟩
      | .ok false => exact ⟨_, rfl, rfl⟩

theorem leaves_saveAfterFailure (c : CacheSpec) (key : String) (s : Session σ) :
    Leaves g job (g.saveAfterFailure JobStep.tell job c key) s
      (if c.asksSave false then [.save c key] else []) := by
  obtain ⟨s', run, world⟩ := g.run_saveAfterFailure job c key s
  cases asks : c.asksSave false with
  | true =>
      rw [run_saveCache_asked g.store g.project key asks] at world
      rw [if_pos rfl, Leaves, run, world]
      exact ⟨_, _, .single rfl⟩
  | false =>
      rw [if_neg (by simp)]
      refine leaves_nothing ?_
      rw [run]
      rcases run_saveCache_unasked g.store g.project key asks s.world with unsaved | ⟨_, _, unsaved⟩ <;>
        rw [world, unsaved]

/-- A save after commands that succeeded fails with one of its calls, or for a policy that is not
known. -/
theorem calls_saveAfterSuccess (g : JobSetting σ) (job : Job) (c : CacheSpec) (key : String)
    (s : Session σ) : ∃ made failure,
    Proceeds g job s.world (if c.asksSave true then .save c key :: g.pruneCalls c else []) made failure
        ((g.saveAfterSuccess JobStep.tell job c key).run.run s).2.world ∧
      ∀ f, ((g.saveAfterSuccess JobStep.tell job c key).run.run s).1 = .error f →
        failure = some f ∨ ∃ word, c.policy = .unknown word ∧ f = .fault (.unknownPolicy word) := by
  have requested := JobStep.run_ofAction (g.store.saveCache c g.project key true) s
  cases asks : c.asksSave true with
  | true =>
      rw [run_saveCache_asked g.store g.project key asks] at requested
      rw [if_pos rfl]
      match saved : (g.store.save key c.paths g.project).run.run s.world with
      | (.ok (), w) =>
          rw [saved] at requested
          have performed : g.perform job (.save c key) s.world = (none, w) := by
            rw [perform, Action.outcome, saved]
            rfl
          have onward : Follows g job (do JobStep.tell (.cacheSaved job.name key); g.prune c)
              { s with world := w } (g.pruneCalls c) :=
            (follows_tell _ _).bind fun _ s' _ => follows_prune c s'
          obtain ⟨made, proceeds⟩ := onward
          rw [saveAfterSuccess, run_bind_ok requested]
          exact ⟨_, _, .next performed proceeds, fun f h => .inl ((failure?_eq_some _ _).mpr h)⟩
      | (.error f, w) =>
          rw [saved] at requested
          have performed : g.perform job (.save c key) s.world = (some (.ofFault f), w) := by
            rw [perform, Action.outcome, saved]
            rfl
          rw [saveAfterSuccess, run_bind_error requested]
          exact ⟨_, _, .stop performed, fun f h => .inl (by cases h; rfl)⟩
  | false =>
      rw [if_neg (by simp)]
      rcases run_saveCache_unasked g.store g.project key asks s.world with
        unsaved | ⟨word, unknown, unsaved⟩
      · rw [unsaved] at requested
        rw [saveAfterSuccess, run_bind_ok requested]
        exact ⟨[], none, .done _, fun f h => by cases h⟩
      · rw [unsaved] at requested
        rw [saveAfterSuccess, run_bind_error requested]
        exact ⟨[], none, .done _, fun f h => .inr ⟨word, unknown, by cases h; rfl⟩⟩

/-- The calls after commands that may have failed. -/
def callsAfter (g : JobSetting σ) (key : String) (c : CacheSpec) : Option JobFailure → List Call
  | none => if c.asksSave true then .save c key :: g.pruneCalls c else []
  | some f => if f.isOfCommand && c.asksSave false then [.save c key] else []

theorem run_afterFailure (g : JobSetting σ) (job : Job) (key : String) (f : JobFailure) (s : Session σ) :
    ∃ s' ending failure, (g.afterFailure job (job.cache.map (·, key)) f).run.run s = (.ok (), s') ∧
      Proceeds g job s.world (job.cache.toList.flatMap (g.callsAfter key · (some f))) ending failure
        s'.world := by
  unfold afterFailure
  cases job.cache with
  | none =>
      refine ⟨s, [], none, ?_, .done _⟩
      rcases f with e | f
      · cases e <;> rfl
      · rfl
  | some c =>
      rw [Option.toList_some, List.flatMap_singleton, callsAfter]
      cases ofCommand : f.isOfCommand with
      | true =>
          obtain ⟨phase, failed, rfl⟩ := f.isOfCommand_iff.mp ofCommand
          obtain ⟨s', run, -⟩ := g.run_saveAfterFailure job c key s
          obtain ⟨ending, failure, proceeds⟩ := (leaves_saveAfterFailure c key s : Leaves g job _ s _)
          rw [run] at proceeds
          exact ⟨s', ending, failure, run, by rwa [Bool.true_and]⟩
      | false =>
          refine ⟨s, [], none, ?_, by rw [Bool.false_and]; exact .done _⟩
          dsimp only [Option.map_some]
          split
          · cases ofCommand
          · rfl

theorem calls_runAndSave {w : Workspace} {s s' : Session σ} {answer : Except JobFailure Unit}
    (ran : (runCommands (g.runTold JobStep.tell job w) job).run.run s = (answer, s')) (key : String) :
    ∃ ending failure,
      Proceeds g job s'.world (job.cache.toList.flatMap (g.callsAfter key · (failure? answer)))
        ending failure ((g.runAndSave JobStep.tell job (job.cache.map (·, key)) w).run.run s).2.world ∧
      (∀ f, answer = .error f →
        ((g.runAndSave JobStep.tell job (job.cache.map (·, key)) w).run.run s).1 = .error f) ∧
      (answer = .ok () → ∀ f,
        ((g.runAndSave JobStep.tell job (job.cache.map (·, key)) w).run.run s).1 = .error f →
        failure = some f ∨ ∃ c word, job.cache = some c ∧ c.policy = .unknown word ∧
          f = .fault (.unknownPolicy word)) := by
  match answer with
  | .ok () =>
      rw [run_runAndSave_ok ran]
      cases job.cache with
      | none => exact ⟨[], none, .done _, nofun, nofun⟩
      | some c =>
          rw [Option.toList_some, List.flatMap_singleton]
          obtain ⟨ending, failure, proceeds, fails⟩ := calls_saveAfterSuccess g job c key s'
          refine ⟨ending, failure, proceeds, nofun, fun _ f h => (fails f h).imp_right ?_⟩
          exact fun ⟨word, unknown⟩ => ⟨c, word, rfl, unknown⟩
  | .error f =>
      rw [run_runAndSave_error ran]
      obtain ⟨s'', ending, failure, run, proceeds⟩ := run_afterFailure g job key f s'
      rw [run_bind_ok run]
      exact ⟨ending, failure, proceeds, fun _ h => h, nofun⟩

theorem isCommand_openingCalls (key : String) : ∀ call ∈ openingCalls job key, call.isCommand = false := by
  cases hc : job.cache <;> simp [openingCalls, hc, Call.isCommand]

theorem mem_commandCalls {w : Workspace} {call : Call} (h : call ∈ commandCalls job w) :
    ∃ phase line, call = .command phase w line := by
  rcases List.mem_append.mp h with h | h <;>
    obtain ⟨line, -, rfl⟩ := List.mem_map.mp h <;> exact ⟨_, line, rfl⟩

theorem isCommand_commandCalls (w : Workspace) : ∀ call ∈ commandCalls job w, call.isCommand = true := by
  intro call hcall
  obtain ⟨phase, line, rfl⟩ := mem_commandCalls hcall
  rfl

theorem mem_calls {key : String} {place : Workspace} {call : Call}
    (h : call ∈ openingCalls job key ++ commandCalls job place) :
    (∃ c, job.cache = some c ∧ (call = .resolveKey c ∨ call = .restore c key)) ∨ call = .prepare ∨
      ∃ phase line, call = .command phase place line := by
  rcases List.mem_append.mp h with h | h
  · rcases List.mem_append.mp h with h | h
    · obtain ⟨c, hc, h⟩ := List.mem_flatMap.mp h
      exact .inl ⟨c, by simpa using hc, by simpa using h⟩
    · exact .inr (.inl (List.mem_singleton.mp h))
  · exact .inr (.inr (mem_commandCalls h))

theorem mem_closingCalls {key : String} {steps : List (Happening σ)} {call : Call}
    (h : call ∈ g.closingCalls job key steps) :
    ∃ c, job.cache = some c ∧ c.saveDue steps = true ∧ (call = .save c key ∨ call ∈ g.pruneCalls c) := by
  unfold closingCalls at h
  split at h
  · rename_i c hc
    split at h
    · rename_i due
      refine ⟨c, hc, due, ?_⟩
      rcases List.mem_cons.mp h with h | h
      · exact .inl h
      · split at h
        · exact .inr h
        · cases h
    · cases h
  · cases h

theorem mem_pruneCalls {c : CacheSpec} {call : Call} (h : call ∈ g.pruneCalls c) :
    ∃ keep, call = .prune c keep := by
  unfold pruneCalls at h
  split at h
  · split at h
    · exact ⟨_, List.mem_singleton.mp h⟩
    · cases h
  · cases h

theorem countP_closingCalls (key : String) (steps : List (Happening σ)) :
    (g.closingCalls job key steps).countP Call.isSave ≤ 1 := by
  have pruning : ∀ c, (g.pruneCalls c).countP Call.isSave = 0 := by
    intro c
    refine List.countP_eq_zero.mpr fun call h => ?_
    obtain ⟨keep, rfl⟩ := mem_pruneCalls h
    simp [Call.isSave]
  unfold closingCalls
  split
  · split
    · rw [List.countP_cons]
      split <;> simp [pruning, Call.isSave]
    · simp
  · simp

theorem closingCalls_of_unexcused {steps : List (Happening σ)} (h : allExcused steps = false)
    {key : String} : g.closingCalls job key steps = [] := by
  unfold closingCalls CacheSpec.saveDue
  rw [h]
  split <;> rfl

theorem closingCalls_of_commands {w w₁ w₂ : World σ} {steps steps' : List (Happening σ)}
    {failure : Option JobFailure} {key : String} {plan : List Call} {place : Workspace}
    (opened : Proceeds g job w plan steps none w₁)
    (commands : Proceeds g job w₁ (commandCalls job place) steps' failure w₂) :
    g.closingCalls job key (steps ++ steps') = job.cache.toList.flatMap (g.callsAfter key · failure) := by
  have well : allWell (steps ++ steps') = failure.isNone := (opened.append commands).allWell_eq
  have excused : allExcused (steps ++ steps') = failure.all (·.isOfCommand) := by
    rw [allExcused, List.all_append]
    change (allExcused steps && allExcused steps') = _
    rw [opened.allExcused_of_none, Bool.true_and]
    cases failure with
    | none => exact commands.allExcused_of_none
    | some f => rw [commands.allExcused_eq (isCommand_commandCalls place), Bool.true_and, Option.all_some]
  unfold closingCalls CacheSpec.saveDue
  rw [well, excused]
  cases job.cache with
  | none => rfl
  | some c => cases failure <;> simp [callsAfter]

/-- What a job tells at its end changes nothing, and fails in no way of its own. -/
theorem run_told_end (x : JobStep σ Unit) (n : Notice) (a : α) (s : Session σ) :
    ((do x; JobStep.tell n; return a : JobStep σ α).run.run s).2.world = (x.run.run s).2.world ∧
      ∀ f, ((do x; JobStep.tell n; return a : JobStep σ α).run.run s).1 = .error f ↔
        (x.run.run s).1 = .error f := by
  match run : x.run.run s with
  | (.ok (), s') =>
      rw [run_bind_ok run]
      exact ⟨rfl, fun _ => ⟨nofun, nofun⟩⟩
  | (.error f, s') =>
      rw [run_bind_error run]
      exact ⟨rfl, fun _ => ⟨fun h => by cases h; rfl, fun h => by cases h; rfl⟩⟩

/-- The calls of a job, with the failure that stopped the first of them up to the last command, and the
failure of those that follow. The job fails with the first of these, or for a policy that is not known. -/
theorem runJob_ends {key : String} (s : Session σ)
    (resolves : ∀ c, job.cache = some c → ∀ k, g.resolveKey job c s.world.files = .ok k → k = key) :
    ∃ place steps failure between ending failure',
      Proceeds g job s.world (openingCalls job key ++ commandCalls job place) steps failure between ∧
        ((∃ e ∈ steps, e.call.isCommand) → ∃ e ∈ steps, e.call = .prepare ∧
          (job.prepare (g.environment job) g.globals g.project e.before.files).1 = .ok place) ∧
        Proceeds g job between (g.closingCalls job key steps) ending failure'
          ((g.runJob job).run.run s).2.world ∧
        (∀ f, failure = some f → ((g.runJob job).run.run s).1 = .error f) ∧
        ∀ f, ((g.runJob job).run.run s).1 = .error f →
          failure = some f ∨ failure' = some f ∨ ∃ c word, job.cache = some c ∧ c.policy = .unknown word ∧
            f = .fault (.unknownPolicy word) := by
  have told : (JobStep.tell (.jobStarted job.name)).run.run s =
      (.ok (), s.tell (.jobStarted job.name)) := rfl
  rw [runJob_eq, run_bind_ok told]
  obtain ⟨made, opened, found⟩ := opening_calls (s.tell (.jobStarted job.name)) resolves
  match ran : (g.opening job).run.run (s.tell (.jobStarted job.name)) with
  | (.error f, s') =>
      rw [ran] at opened
      rw [run_bind_error ran]
      refine ⟨⟨[], [], []⟩, made, _, _, [], none, opened.stopped _, fun ⟨e, he, isCommand⟩ => ?_, ?_,
        fun _ h => by cases h; rfl, fun _ h => .inl (by cases h; rfl)⟩
      · rw [isCommand_openingCalls key _ (opened.mem_plan he)] at isCommand
        cases isCommand
      · rw [closingCalls_of_unexcused (opened.allExcused_eq (isCommand_openingCalls key))]
        exact .done _
  | (.ok (restored, place), s₁) =>
      rw [ran] at opened found
      rw [run_bind_ok ran]
      obtain ⟨cached, prepared⟩ := found restored place rfl
      obtain ⟨made', commands⟩ := (follows_runCommands place s₁ : Follows g job _ s₁ _)
      match ran' : (runCommands (g.runTold JobStep.tell job place) job).run.run s₁ with
      | (answer, s₂) =>
          rw [ran'] at commands
          obtain ⟨ending, failure', closes, rethrown, fails⟩ := calls_runAndSave ran' key
          rw [← closingCalls_of_commands opened commands] at closes
          dsimp only
          rw [cached]
          obtain ⟨world, failed⟩ := run_told_end
            (g.runAndSave JobStep.tell job (job.cache.map (·, key)) place) (.jobSucceeded job.name) ({
              name := job.name, stage := job.stage, status := .success
              cacheKey := restored.map fun (_, key, _) => key
              cacheHit := restored.any fun (_, _, hit) => hit
              allowFailure := job.allowFailure } : JobResult) s₁
          refine ⟨place, made ++ made', failure? answer, s₂.world, ending, failure', opened.append commands,
            fun _ => ?_, ?_, fun f h => ?_, fun f h => ?_⟩
          · obtain ⟨e, he, prepares⟩ := prepared
            exact ⟨e, List.mem_append_left _ he, prepares⟩
          · rw [world]
            exact closes
          · exact (failed f).mpr (rethrown f ((failure?_eq_some _ _).mp h))
          · have thrown := (failed f).mp h
            match answer with
            | .ok () => exact .inr (fails rfl f thrown)
            | .error f' =>
                cases (rethrown f' rfl).symm.trans thrown
                exact .inl rfl

theorem runJob_calls {key : String} (s : Session σ)
    (resolves : ∀ c, job.cache = some c → ∀ k, g.resolveKey job c s.world.files = .ok k → k = key) :
    ∃ place steps failure between ending failure',
      Proceeds g job s.world (openingCalls job key ++ commandCalls job place) steps failure between ∧
        ((∃ e ∈ steps, e.call.isCommand) → ∃ e ∈ steps, e.call = .prepare ∧
          (job.prepare (g.environment job) g.globals g.project e.before.files).1 = .ok place) ∧
        Proceeds g job between (g.closingCalls job key steps) ending failure'
          ((g.runJob job).run.run s).2.world ∧
        ∀ f, failure = some f → ((g.runJob job).run.run s).1 = .error f := by
  obtain ⟨place, steps, failure, between, ending, failure', opened, prepared, closed, fails, -⟩ :=
    runJob_ends s resolves
  exact ⟨place, steps, failure, between, ending, failure', opened, prepared, closed, fails⟩

end

end JobSetting

end Conveyor
