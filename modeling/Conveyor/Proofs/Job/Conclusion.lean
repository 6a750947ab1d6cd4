import Conveyor.Job.Lifecycle
import Conveyor.Proofs.Effect

/-!
How a job that runs ends. Whatever its commands, its store and the file system do, it ends with success
or failure, under its own name and with its own permission to fail.
-/

namespace Conveyor

/-- The result of a job that has run to its end. -/
structure JobResult.Concludes (r : JobResult) (job : Job) : Prop where
  name : r.name = job.name
  stage : r.stage = job.stage
  allowFailure : r.allowFailure = job.allowFailure
  terminal : r.status = .success ∨ r.status = .failed

theorem JobResult.Concludes.isBlocking_iff {r : JobResult} {job : Job} (h : r.Concludes job) :
    r.isBlocking = true ↔ r.status = .failed ∧ job.allowFailure = false := by
  simp [isBlocking, h.allowFailure]

namespace JobSetting

variable {σ : Type}

theorem runJob_ok {g : JobSetting σ} {tell : Notice → JobStep σ Unit} {job : Job} {s s' : Session σ}
    {r : JobResult} (h : (g.runJobTelling tell job).run.run s = (.ok r, s')) : r.Concludes job := by
  unfold runJobTelling at h
  obtain ⟨_, _, -, h⟩ := run_ok_of_bind_ok h
  extract_lets go at h
  have concluded : ∀ restored s, (go restored).run.run s = (.ok r, s') → r.Concludes job := by
    intro restored s h
    obtain ⟨_, _, -, h⟩ := run_ok_of_bind_ok h
    obtain ⟨_, _, -, h⟩ := run_ok_of_bind_ok h
    obtain ⟨_, _, -, h⟩ := run_ok_of_bind_ok h
    cases h
    exact ⟨rfl, rfl, rfl, .inl rfl⟩
  split at h
  all_goals
    obtain ⟨_, _, -, h⟩ := run_ok_of_bind_ok h
    exact concluded _ _ h

theorem concludes_failedResult (job : Job) (f : JobFailure) : (failedResult job f).Concludes job :=
  ⟨rfl, rfl, rfl, .inr rfl⟩

theorem run_isolate (job : Job) (step : JobStep σ JobResult) (s : Session σ) :
    (isolate job step).run s = match step.run.run s with
      | (.ok r, s₁) => (r, s₁)
      | (.error f, s₁) =>
        (failedResult job f, s₁.tell (.jobFailed job.name f.message f.exitCode f.output)) := by
  unfold isolate JobStep.attempt
  simp only [StateT.run_bind]
  match step.run.run s with
  | (.ok r, s₁) => rfl
  | (.error f, s₁) => rfl

theorem run_runIsolated (g : JobSetting σ) (job : Job) (s : Session σ) :
    (g.runIsolated job).run s = match (g.runJob job).run.run s with
      | (.ok r, s₁) => (r, s₁)
      | (.error f, s₁) =>
        (failedResult job f, s₁.tell (.jobFailed job.name f.message f.exitCode f.output)) :=
  run_isolate job (g.runJob job) s

/-- However a job tells what happens, it is brought to its end. -/
theorem isolate_concludes (g : JobSetting σ) (tell : Notice → JobStep σ Unit) (job : Job) (s : Session σ) :
    ((isolate job (g.runJobTelling tell job)).run s).1.Concludes job := by
  rw [run_isolate]
  match hrun : (g.runJobTelling tell job).run.run s with
  | (.ok r, s₁) => exact runJob_ok hrun
  | (.error f, s₁) => exact concludes_failedResult job f

theorem runIsolated_concludes (g : JobSetting σ) (job : Job) (s : Session σ) :
    ((g.runIsolated job).run s).1.Concludes job :=
  g.isolate_concludes JobStep.tell job s

end JobSetting

end Conveyor
