import Conveyor.Proofs.Run.Retention

/-!
The calls of a job in a run, its commands in the workspace that it has prepared. The world before a job
settles them, and they settle how the job ends.
-/

namespace Conveyor

variable {σ : Type}

namespace JobSetting

variable {g : JobSetting σ} {job : Job}

theorem prepare_unique {key : String} {w w' : World σ} {made : List (Happening σ)}
    {failure : Option JobFailure} (opened : Proceeds g job w (openingCalls job key) made failure w')
    {e e' : Happening σ} (he : e ∈ made) (he' : e' ∈ made) (prepares : e.call = .prepare)
    (prepares' : e'.call = .prepare) : e = e' := by
  have before : ∀ call ∈ job.cache.toList.flatMap fun c => [Call.resolveKey c, .restore c key],
      call ≠ .prepare := by
    intro call hcall
    obtain ⟨c, -, hcall⟩ := List.mem_flatMap.mp hcall
    rintro rfl
    simp at hcall
  rcases opened.of_append with ⟨f, -, stopped⟩ | ⟨first, second, between, rfl, begun, last⟩
  · exact absurd prepares (before _ (stopped.mem_plan he))
  · have mem_last : ∀ x ∈ first ++ second, x.call = .prepare → x ∈ second := by
      intro x hx hcall
      rcases List.mem_append.mp hx with h | h
      · exact absurd hcall (before _ (begun.mem_plan h))
      · exact h
    have found := mem_last e he prepares
    have found' := mem_last e' he' prepares'
    cases last with
    | stop => rw [List.mem_singleton.mp found, List.mem_singleton.mp found']
    | next _ rest =>
        cases rest
        rw [List.mem_singleton.mp found, List.mem_singleton.mp found']

section

variable {place : Workspace} {w w' : World σ} {made : List (Happening σ)} {failure : Option JobFailure}
  (commands : Proceeds g job w (commandCalls job place) made failure w')
include commands

theorem exists_command (busy : job.beforeScript ++ job.script ≠ []) :
    ∃ e ∈ made, e.call.isCommand = true := by
  obtain ⟨call, rest, plan⟩ : ∃ call rest, commandCalls job place = call :: rest := by
    refine List.exists_cons_of_ne_nil fun none => busy ?_
    simpa [commandCalls] using none
  rw [plan] at commands
  obtain ⟨e, he, rfl⟩ := commands.mem_first
  exact ⟨e, he, isCommand_commandCalls place _ (plan ▸ List.mem_cons_self)⟩

theorem not_prepare {e : Happening σ} (he : e ∈ made) : e.call ≠ .prepare := by
  have isCommand := isCommand_commandCalls place _ (commands.mem_plan he)
  intro prepares
  rw [prepares] at isCommand
  cases isCommand

end

/-- A job that succeeds tells the key of its cache from before the job, and whether there was something to
restore. -/
theorem of_runJob_ok {s s' : Session σ} {result : JobResult}
    (h : (g.runJob job).run.run s = (.ok result, s')) : result.status = .success ∧
      ∀ c, job.cache = some c → ∃ key restored w, g.resolveKey job c s.world.files = .ok key ∧
        (g.store.restoreCache c g.project key).run.run s.world = (.ok restored, w) ∧
          result.cacheKey = some key ∧ result.cacheHit = restored.hit := by
  rw [runJob_eq] at h
  obtain ⟨_, s₁, told, h⟩ := run_ok_of_bind_ok h
  cases told
  obtain ⟨⟨restored, place⟩, s₂, opened, h⟩ := run_ok_of_bind_ok h
  obtain ⟨_, _, -, h⟩ := run_ok_of_bind_ok h
  obtain ⟨_, _, -, h⟩ := run_ok_of_bind_ok h
  cases h
  refine ⟨rfl, fun c cache => ?_⟩
  obtain ⟨found, s₃, restoring, opened⟩ := run_ok_of_bind_ok opened
  obtain ⟨_, _, -, opened⟩ := run_ok_of_bind_ok opened
  cases opened
  unfold JobSetting.restoring at restoring
  rw [cache] at restoring
  dsimp only at restoring
  rw [map_eq_pure_bind] at restoring
  obtain ⟨⟨key, hit⟩, _, restores, restoring⟩ := run_ok_of_bind_ok restoring
  cases restoring
  obtain ⟨key', _, asked, restores⟩ := run_ok_of_bind_ok restores
  obtain ⟨resolved, rfl⟩ := Prod.mk.inj asked
  obtain ⟨answer, _, requested, restores⟩ := run_ok_of_bind_ok restores
  obtain ⟨_, _, -, restores⟩ := run_ok_of_bind_ok restores
  cases restores
  rw [JobStep.run_ofAction] at requested
  match run : (g.store.restoreCache c g.project key).run.run (s.tell (.jobStarted job.name)).world with
  | (.ok answer', w) =>
      rw [run] at requested
      cases requested
      exact ⟨key, answer, w, resolved, run, rfl, rfl⟩
  | (.error f, w) =>
      rw [run] at requested
      cases requested

end JobSetting

namespace JobRun

variable {r : JobRun σ} {steps ending : List (Happening σ)}

/-- The calls of a job up to its last command, and those after it. The commands run in the workspace that
the job has prepared. -/
def Makes (r : JobRun σ) (steps ending : List (Happening σ)) : Prop :=
  ∃ place failure between failure',
    Proceeds r.setting r.job r.before.world (JobSetting.openingCalls r.job r.key ++
      JobSetting.commandCalls r.job place) steps failure between ∧
    ((∃ e ∈ steps, e.call.isCommand) → ∃ e ∈ steps, e.call = .prepare ∧
      (r.job.prepare (r.setting.environment r.job) r.setting.globals r.setting.project
        e.before.files).1 = .ok place) ∧
    Proceeds r.setting r.job between (r.setting.closingCalls r.job r.key steps) ending failure'
      r.after.world

/-- A failure is that of a call, or one for a policy that is not known. -/
def Fails (r : JobRun σ) (steps ending : List (Happening σ)) (f : JobFailure) : Prop :=
  (∃ e ∈ steps, e.failure = some f) ∨ (∃ e ∈ ending, e.failure = some f) ∨
    ∃ c word, r.job.cache = some c ∧ c.policy = .unknown word ∧ f = .fault (.unknownPolicy word)

theorem run_eq (r : JobRun σ) : r.after.world = ((r.setting.runJob r.job).run.run r.before).2.world ∧
    ((∃ result, ((r.setting.runJob r.job).run.run r.before).1 = .ok result ∧ r.result = result) ∨
      ∃ f, ((r.setting.runJob r.job).run.run r.before).1 = .error f ∧
        r.result = JobSetting.failedResult r.job f) := by
  have ran := r.ran
  rw [JobSetting.run_runIsolated] at ran
  match run : (r.setting.runJob r.job).run.run r.before with
  | (.ok result, s') =>
      rw [run] at ran
      cases ran
      exact ⟨rfl, .inl ⟨_, rfl, rfl⟩⟩
  | (.error f, s') =>
      rw [run] at ran
      obtain ⟨result, after⟩ := Prod.mk.inj ran
      exact ⟨by rw [← after]; rfl, .inr ⟨f, rfl, result.symm⟩⟩

theorem concludes (r : JobRun σ) : r.result.Concludes r.job := by
  have own := r.setting.runIsolated_concludes r.job r.before
  rwa [r.ran] at own

theorem exists_makes (r : JobRun σ) : ∃ steps ending, r.Makes steps ending ∧
    (∀ e ∈ steps, ∀ f, e.failure = some f → r.result = JobSetting.failedResult r.job f) ∧
    (r.result.status = .failed → ∃ f, r.result = JobSetting.failedResult r.job f ∧
      r.Fails steps ending f) := by
  have resolves : ∀ c, r.job.cache = some c → ∀ key,
      r.setting.resolveKey r.job c r.before.world.files = .ok key → key = r.key :=
    fun _ cache _ => eq_key cache
  obtain ⟨place, steps, failure, between, ending, failure', opened, prepared, closed, fails, stems⟩ :=
    JobSetting.runJob_ends r.before resolves
  obtain ⟨world, answer⟩ := r.run_eq
  rw [← world] at closed
  refine ⟨steps, ending, ⟨place, failure, between, failure', opened, prepared, closed⟩, ?_, fun failed => ?_⟩
  · intro e he f failed
    have thrown := fails f ((opened.failure_iff f).mpr ⟨e, he, failed⟩)
    rcases answer with ⟨result, ok, -⟩ | ⟨f', error, result⟩
    · cases ok.symm.trans thrown
    · cases error.symm.trans thrown
      exact result
  · rcases answer with ⟨result, ok, same⟩ | ⟨f, error, result⟩
    · have run : (r.setting.runJob r.job).run.run r.before = (.ok result, _) := Prod.ext ok rfl
      rw [same, (JobSetting.of_runJob_ok run).1] at failed
      cases failed
    · exact ⟨f, result, (stems f error).imp (opened.failure_iff f).mp (.imp_left (closed.failure_iff f).mp)⟩

/-- The world before a job settles its calls. -/
theorem Makes.unique {steps' ending' : List (Happening σ)} (makes : r.Makes steps ending)
    (makes' : r.Makes steps' ending') : steps = steps' ∧ ending = ending' := by
  obtain ⟨place, failure, between, failure₁, opened, prepared, closed⟩ := makes
  obtain ⟨place', failure', between', failure₁', opened', prepared', closed'⟩ := makes'
  suffices same : steps = steps' ∧ between = between' by
    obtain ⟨rfl, rfl⟩ := same
    exact ⟨rfl, (closed.unique closed').1⟩
  rcases opened.of_append with ⟨f, rfl, stopped⟩ | ⟨first, second, w, rfl, begun, commands⟩ <;>
    rcases opened'.of_append with ⟨f', rfl, stopped'⟩ | ⟨first', second', w', rfl, begun', commands'⟩
  · obtain ⟨rfl, -, rfl⟩ := stopped.unique stopped'
    exact ⟨rfl, rfl⟩
  · cases (stopped.unique begun').2.1
  · cases (begun.unique stopped').2.1
  · obtain ⟨rfl, -, rfl⟩ := begun.unique begun'
    by_cases idle : r.job.beforeScript ++ r.job.script = []
    · obtain ⟨setup, script⟩ := List.append_eq_nil_iff.mp idle
      rw [JobSetting.commandCalls, setup, script] at commands commands'
      cases commands
      cases commands'
      exact ⟨rfl, rfl⟩
    · -- a command has run, so the workspace is the one that was prepared
      have same : place = place' := by
        obtain ⟨e, he, prepares, found⟩ := prepared ((JobSetting.exists_command commands idle).imp
          fun _ h => ⟨List.mem_append_right _ h.1, h.2⟩)
        obtain ⟨e', he', prepares', found'⟩ := prepared' ((JobSetting.exists_command commands' idle).imp
          fun _ h => ⟨List.mem_append_right _ h.1, h.2⟩)
        have early : e ∈ first := (List.mem_append.mp he).resolve_right fun h =>
          JobSetting.not_prepare commands h prepares
        have early' : e' ∈ first := (List.mem_append.mp he').resolve_right fun h =>
          JobSetting.not_prepare commands' h prepares'
        obtain rfl := JobSetting.prepare_unique begun early early' prepares prepares'
        cases found.symm.trans found'
        rfl
      subst same
      obtain ⟨rfl, -, rfl⟩ := commands.unique commands'
      exact ⟨rfl, rfl⟩

end JobRun

end Conveyor
