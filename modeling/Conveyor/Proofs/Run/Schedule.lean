import Conveyor.Cache.Memory
import Conveyor.Proofs.Files.Tree
import Conveyor.Proofs.Pipeline.Order
import Conveyor.Proofs.Run.Position

/-!
The schedule of a run. Which jobs run, and which are skipped for their trigger or for a failure before
them, is settled by the positions of the stages and by the first stage with a failure for good. The
world changes only while a job runs, so a skipped job runs no command and touches nothing.
-/

namespace Conveyor

variable {σ : Type}

/-- A job has failed for good: it was not allowed to fail. -/
def Executed.Fails (r : Executed) : Prop := r.2.status = .failed ∧ r.1.allowFailure = false

namespace Pipeline

/-- The position of the first stage in which a job fails for good. -/
structure FirstFailure (p : Pipeline) (ran : List Executed) (n : Int) : Prop where
  fails : ∃ r ∈ ran, r.Fails ∧ p.positionOf r.1 = n
  first : ∀ r ∈ ran, r.Fails → n ≤ p.positionOf r.1

/-- A job does not run and is reported as skipped. -/
structure Skips (ran : List Executed) (report : RunReport) (job : Job) (reason : String) : Prop where
  idle : ∀ r ∈ ran, r.1 ≠ job
  reported : report.result? job.name = some (skippedResult job reason)

/-- What a run does for an event: the jobs that run, in their order, and the report. -/
structure Scheduled (p : Pipeline) (e : Event) (failFast : Bool) (ran : List Executed)
    (report : RunReport) : Prop where
  own : ∀ r ∈ ran, r.1 ∈ p.jobs
  once : (ran.map (·.1.name)).Nodup
  concluded : ∀ r ∈ ran, r.2.Concludes r.1 ∧ report.result? r.1.name = some r.2
  barrier : ran.Pairwise fun a b => p.positionOf a.1 ≤ p.positionOf b.1
  complete : (report.jobs.map (·.name)).Perm (p.jobs.map (·.name))
  ineligible : ∀ job ∈ p.jobs, job.isEligible e = false →
    Skips ran report job ("trigger: " ++ job.planReason e)
  upTo : ∀ n, failFast = true → p.FirstFailure ran n → ∀ job ∈ p.jobs, job.isEligible e = true →
    p.positionOf job ≤ n → ∃ r ∈ ran, r.1 = job
  beyond : ∀ n, failFast = true → p.FirstFailure ran n → ∀ job ∈ p.jobs, job.isEligible e = true →
    n < p.positionOf job → Skips ran report job blockedReason
  unbroken : (failFast = true → ∀ r ∈ ran, ¬ r.Fails) → ∀ job ∈ p.jobs, job.isEligible e = true →
    ∃ r ∈ ran, r.1 = job

namespace Sound

variable {p : Pipeline}

theorem nodup_ordered (sound : p.Sound) : (p.ordered.map (·.name)).Nodup :=
  (p.ordered_perm.map _).nodup_iff.mpr sound.jobs

theorem placed (sound : p.Sound) : Placed p.positionOf p.groups := by
  refine ⟨List.pairwise_map.mpr sound.sorted_stages, ?_⟩
  intro group hgroup job hjob
  obtain ⟨s, hs, rfl⟩ := List.mem_map.mp hgroup
  exact sound.positionOf_eq hs (by simpa using (List.mem_filter.mp hjob).2)

theorem mem_groups (sound : p.Sound) (job : Job) :
    job ∈ p.groups.flatMap (·.2) ↔ job ∈ p.jobs := by
  rw [← p.ordered_perm.mem_iff, List.mem_flatMap]
  constructor
  · rintro ⟨group, hgroup, hjob⟩
    obtain ⟨s, hs, rfl⟩ := List.mem_map.mp hgroup
    exact (List.mem_filter.mp hjob).1
  · intro hjob
    obtain ⟨s, hs, hname⟩ := List.mem_map.mp (sound.staged job (p.ordered_perm.mem_iff.mp hjob))
    exact ⟨_, List.mem_map_of_mem hs, List.mem_filter.mpr ⟨hjob, by simpa using hname.symm⟩⟩

theorem nodup_group (sound : p.Sound) :
    ∀ group ∈ p.groups, (group.2.map (·.name)).Nodup := by
  intro group hgroup
  obtain ⟨s, hs, rfl⟩ := List.mem_map.mp hgroup
  exact (List.filter_sublist.map _).nodup sound.nodup_ordered

theorem groups_perm (sound : p.Sound) : (p.groups.flatMap (·.2)).Perm p.jobs := by
  apply (List.perm_ext_iff_of_nodup _ (List.Nodup.of_map _ sound.jobs)).mpr sound.mem_groups
  exact sound.placed.nodup_jobs fun group h => List.Nodup.of_map _ (sound.nodup_group group h)

theorem decide_ofPlan (sound : p.Sound) (e : Event) :
    Verdicts.Decide (.ofPlan (p.ordered.map fun job => ⟨job, job.isEligible e, job.planReason e⟩)) e
      p.jobs := by
  intro job hjob
  apply Table.get?_putAll_of_mem
  · simpa [List.map_map, Function.comp_def] using sound.nodup_ordered
  · simpa using p.ordered_perm.mem_iff.mpr hjob

theorem decide_groups (sound : p.Sound) (e : Event) :
    ∀ group ∈ p.groups, Verdicts.Decide
      (.ofPlan (p.ordered.map fun job => ⟨job, job.isEligible e, job.planReason e⟩)) e group.2 :=
  fun group hgroup job hjob => sound.decide_ofPlan e job
    ((sound.mem_groups job).mp (List.mem_flatMap.mpr ⟨group, hgroup, hjob⟩))

/-- Results that are noted for all jobs make up a report with one result for each of them. -/
theorem collect_eq {results : Results} {outcome : Job → JobResult}
    (noted : ∀ job ∈ p.jobs, results.get? job.name = some (outcome job)) :
    collect results p.ordered = .ok ⟨p.ordered.map outcome⟩ := by
  rw [collect, mapM_eq_ok (g := outcome)]
  · rfl
  · intro job hjob
    rw [noted job (p.ordered_perm.mem_iff.mp hjob)]

theorem result?_eq (sound : p.Sound) {outcome : Job → JobResult}
    (names : ∀ job ∈ p.jobs, (outcome job).name = job.name) {job : Job} (hjob : job ∈ p.jobs) :
    RunReport.result? ⟨p.ordered.map outcome⟩ job.name = some (outcome job) := by
  apply find?_eq_some_of_unique
  · exact List.mem_map_of_mem (p.ordered_perm.mem_iff.mpr hjob)
  · simpa using names job hjob
  · intro r hr hname
    obtain ⟨other, hother, rfl⟩ := List.mem_map.mp hr
    have hother' := p.ordered_perm.mem_iff.mp hother
    have same : other.name = job.name := by rw [← names other hother']; simpa using hname
    rw [List.inj_on_of_nodup_map sound.jobs hother' hjob same]

/-- The outcome of a job: its result if it ran, and else that it was skipped. -/
theorem exists_outcome (sound : p.Sound) {e : Event} {failFast : Bool} {ran : List Executed}
    {notes : Results} (passes : Passes e failFast false p.groups ran notes) :
    ∃ outcome : Job → JobResult,
      (∀ job ∈ p.jobs, Table.get? (Table.putAll [] notes) job.name = some (outcome job)) ∧
      (∀ r ∈ ran, outcome r.1 = r.2) ∧
      ∀ job ∈ p.jobs, (∀ r ∈ ran, r.1 ≠ job) → outcome job = skippedResult job (skipReason e job) := by
  have nodup : (notes.map (·.1)).Nodup :=
    (passes.names_of_notes.trans (sound.groups_perm.map _)).nodup_iff.mpr sound.jobs
  have noted : ∀ r ∈ ran, Table.get? (Table.putAll [] notes) r.1.name = some r.2 := fun r hr =>
    Table.get?_putAll_of_mem nodup (passes.notes_of_ran.subset (List.mem_map_of_mem hr)) []
  have skipped : ∀ job ∈ p.jobs, (∀ r ∈ ran, r.1 ≠ job) →
      Table.get? (Table.putAll [] notes) job.name = some (skippedResult job (skipReason e job)) :=
    fun job hjob hran => Table.get?_putAll_of_mem nodup
      (passes.note_of_skipped ((sound.mem_groups job).mpr hjob) hran) []
  refine ⟨fun job => (Table.get? (Table.putAll [] notes) job.name).getD (skippedResult job ""),
    ?_, ?_, ?_⟩
  · intro job hjob
    by_cases hran : ∃ r ∈ ran, r.1 = job
    · obtain ⟨r, hr, rfl⟩ := hran
      simp [noted r hr]
    · simp [skipped job hjob (fun r hr heq => hran ⟨r, hr, heq⟩)]
  · intro r hr
    simp [noted r hr]
  · intro job hjob hran
    simp [skipped job hjob hran]

/-- What the stages do is the schedule. -/
theorem scheduled (sound : p.Sound) {e : Event} {failFast : Bool} {ran : List Executed}
    {notes : Results} (passes : Passes e failFast false p.groups ran notes) :
    ∃ report, collect (Table.putAll [] notes) p.ordered = .ok report ∧
      p.Scheduled e failFast ran report := by
  obtain ⟨outcome, noted, ofRan, ofSkipped⟩ := sound.exists_outcome passes
  have members : ∀ r ∈ ran, r.1 ∈ p.jobs ∧ r.1.isEligible e = true ∧ r.2.Concludes r.1 := by
    intro r hr
    obtain ⟨hjob, rest⟩ := passes.of_mem r hr
    exact ⟨(sound.mem_groups r.1).mp hjob, rest⟩
  have fails_iff : ∀ r ∈ ran, r.2.isBlocking = true ↔ r.Fails := fun r hr =>
    (members r hr).2.2.isBlocking_iff
  have ran_iff : ∀ job ∈ p.jobs, job.isEligible e = true → ((∃ r ∈ ran, r.1 = job) ↔
      ¬ (failFast = true ∧ ∃ r ∈ ran, r.2.isBlocking = true ∧
        p.positionOf r.1 < p.positionOf job)) := by
    intro job hjob eligible
    rw [passes.ran_iff sound.placed ((sound.mem_groups job).mpr hjob) eligible]
    simp
  have names : ∀ job ∈ p.jobs, (outcome job).name = job.name := by
    intro job hjob
    by_cases hran : ∃ r ∈ ran, r.1 = job
    · obtain ⟨r, hr, rfl⟩ := hran
      rw [ofRan r hr, (members r hr).2.2.name]
    · rw [ofSkipped job hjob fun r hr heq => hran ⟨r, hr, heq⟩]
      rfl
  have skips : ∀ job ∈ p.jobs, (∀ r ∈ ran, r.1 ≠ job) →
      Skips ran ⟨p.ordered.map outcome⟩ job (skipReason e job) := fun job hjob hran =>
    ⟨hran, by rw [sound.result?_eq names hjob, ofSkipped job hjob hran]⟩
  refine ⟨_, collect_eq noted, ?_, ?_, ?_, passes.barrier sound.placed, ?_, ?_, ?_, ?_, ?_⟩
  · exact fun r hr => (members r hr).1
  · have sub := (passes.notes_of_ran.map (·.1)).nodup
      ((passes.names_of_notes.trans (sound.groups_perm.map _)).nodup_iff.mpr sound.jobs)
    rwa [List.map_map] at sub
  · intro r hr
    obtain ⟨hjob, -, concludes⟩ := members r hr
    exact ⟨concludes, by rw [sound.result?_eq names hjob, ofRan r hr]⟩
  · have same : (p.ordered.map outcome).map (·.name) = p.ordered.map (·.name) := by
      rw [List.map_map]
      exact List.map_congr_left fun job hjob => names job (p.ordered_perm.mem_iff.mp hjob)
    rw [same]
    exact p.ordered_perm.map _
  · intro job hjob ineligible
    have reason : skipReason e job = "trigger: " ++ job.planReason e := by
      simp [skipReason, ineligible]
    rw [← reason]
    apply skips job hjob
    rintro r hr rfl
    rw [(members r hr).2.1] at ineligible
    cases ineligible
  · intro n fast first job hjob eligible hle
    rw [ran_iff job hjob eligible]
    rintro ⟨-, r, hr, hblocking, hlt⟩
    have := first.first r hr ((fails_iff r hr).mp hblocking)
    omega
  · intro n fast first job hjob eligible hlt
    have reason : skipReason e job = blockedReason := by simp [skipReason, eligible]
    rw [← reason]
    apply skips job hjob
    intro r hr heq
    obtain ⟨failed, hfailed, fails, rfl⟩ := first.fails
    exact (ran_iff job hjob eligible).mp ⟨r, hr, heq⟩
      ⟨fast, failed, hfailed, (fails_iff failed hfailed).mpr fails, hlt⟩
  · intro none job hjob eligible
    rw [ran_iff job hjob eligible]
    rintro ⟨fast, r, hr, hblocking, -⟩
    exact none fast r hr ((fails_iff r hr).mp hblocking)

end Sound

theorem needStage_ok {α : Type} (a : α) : needStage (.ok a) = .ok a := rfl

/-- A run whose setting can be had passes its stages, and collects what they noted. -/
theorem Sound.runPrinted_passes {p : Pipeline} (sound : p.Sound) {e : Event} {project : Location}
    {options : RunOptions σ} {s : Session σ} {g : JobSetting σ} {w : World σ}
    (set : (options.setting p e project).run.run s.world = (.ok g, w)) {printer : Printer σ}
    (tells : printer.TellsAround) : ∃ ran notes s', (p.runPrinted printer e project options).run.run s =
        (collect (Table.putAll [] notes) p.ordered, s') ∧
      InTurn (g.runIsolatedBy printer) { s with world := w } ran s' ∧
      Passes e options.failFast false p.groups ran notes := by
  obtain ⟨ran, notes, s', hstages, runs, passes⟩ := runStages_run tells g options.schedule
    options.failFast (sound.decide_groups e) sound.nodup_group false [] { s with world := w }
  refine ⟨ran, notes, s', ?_, runs, passes⟩
  unfold runPrinted
  rw [run_bind_ok (RunStep.run_ofAction set), sound.plan_eq, sound.jobsByStage_eq,
    sound.jobsInOrder_eq]
  simp only [needStage_ok]
  rw [run_bind_ok (RunStep.run_ofExcept _ _), run_bind_ok (RunStep.run_ofExcept _ _),
    run_bind_ok hstages, run_bind_ok (RunStep.run_ofExcept _ _),
    RunStep.run_ofExcept]

theorem Sound.run_passes {p : Pipeline} (sound : p.Sound) {e : Event} {project : Location}
    {options : RunOptions σ} {s : Session σ} {g : JobSetting σ} {w : World σ}
    (set : (options.setting p e project).run.run s.world = (.ok g, w)) : ∃ ran notes s',
      (p.run e project options).run.run s = (collect (Table.putAll [] notes) p.ordered, s') ∧
      g.Runs { s with world := w } ran s' ∧ Passes e options.failFast false p.groups ran notes :=
  sound.runPrinted_passes set tellsAround_tell

/-- A run of a pipeline keeps to the schedule, whatever the jobs, the runner and the store do. A run
whose setting cannot be had runs no job. -/
theorem IsBuilt.run_scheduled {p : Pipeline} (built : p.IsBuilt) (e : Event) (project : Location)
    (options : RunOptions σ) (s : Session σ) :
    match (options.setting p e project).run.run s.world with
    | (.error f, w) => (p.run e project options).run.run s = (.error f, { s with world := w })
    | (.ok g, w) => ∃ ran report s',
        (p.run e project options).run.run s = (.ok report, s') ∧
        g.Runs { s with world := w } ran s' ∧ p.Scheduled e options.failFast ran report := by
  have sound := built.sound
  match hsetting : (options.setting p e project).run.run s.world with
  | (.error f, w) => exact run_bind_error (RunStep.run_ofAction hsetting)
  | (.ok g, w) =>
      obtain ⟨ran, notes, s', hrun, runs, passes⟩ := sound.run_passes hsetting
      obtain ⟨report, hcollect, scheduled⟩ := sound.scheduled passes
      exact ⟨ran, report, s', by rw [hrun, hcollect], runs, scheduled⟩

/-- A job that is blocked if the one before it fails. -/
def twoStages : Pipeline where
  stages := Stage.number ["build", "test"]
  jobs := [
    { name := "compile", stage := "build", script := ["make"] },
    { name := "check", stage := "test", script := ["make check"] }]

/-- A run with a store in memory where every command fails. -/
def failingOptions : RunOptions Unit where
  store := some { MemoryStore.store with root := some [] }
  runner := fun command _ _ => pure ⟨command, 1, "", ""⟩
  environment := []

theorem isBuilt_twoStages : twoStages.IsBuilt := by
  have distinct : repeatedNames ["build", "test"] = [] := by simp [repeatedNames]
  have checked : Build.checkJobs ["build", "test"] [] twoStages.jobs = .ok () := rfl
  refine .written ["build", "test"] twoStages.jobs [] ?_
  rw [Build.pipeline, distinct]
  simp only [checked]
  rfl

theorem setting_failingOptions (p : Pipeline) (e : Event) :
    ∃ g, (failingOptions.setting p e []).run.run ⟨{}, [], ()⟩ = (.ok g, ⟨{}, [], ()⟩) := by
  have real : FileTree.resolve {} [] = .ok [] :=
    FileTree.resolve_eq (by simp) fun m hm target => by simp [List.prefix_nil.mp hm]
  have asked : (Action.ask (σ := Unit) (·.resolve [])).run.run ⟨{}, [], ()⟩ =
      (.ok [], ⟨{}, [], ()⟩) := by
    rw [Action.run_ask, real]
  rw [RunOptions.setting, run_bind_ok asked]
  dsimp only [failingOptions]
  rw [run_bind_ok (run_pure _ _)]
  simp only [Option.getD_some]
  rw [run_bind_ok asked]
  exact ⟨_, rfl⟩

theorem run_scheduled_two_stages :
    twoStages.IsBuilt ∧ ∃ (g : JobSetting Unit) (ran : List Executed) (report : RunReport)
      (s' : Session Unit),
      (twoStages.run ⟨"push", none, none⟩ [] failingOptions).run.run ⟨⟨{}, [], ()⟩, []⟩ =
        (.ok report, s') ∧
      g.Runs ⟨⟨{}, [], ()⟩, []⟩ ran s' ∧
      twoStages.Scheduled ⟨"push", none, none⟩ true ran report := by
  obtain ⟨g, hg⟩ := setting_failingOptions twoStages ⟨"push", none, none⟩
  have run := isBuilt_twoStages.run_scheduled ⟨"push", none, none⟩ [] failingOptions
    ⟨⟨{}, [], ()⟩, []⟩
  rw [hg] at run
  exact ⟨isBuilt_twoStages, g, run⟩

end Pipeline

end Conveyor
