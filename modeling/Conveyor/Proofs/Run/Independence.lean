import Conveyor.Proofs.Job.Steps
import Conveyor.Proofs.Run.Report

/-!
Jobs that do not depend on each other. Where a runner changes no file and answers by what it is given, a
job without a cache changes no file either, and comes to its result by the files alone. So a run of such
jobs has one report for all schedules, and each job comes to what it comes to alone.
-/

namespace Conveyor

variable {σ α β : Type}

/-- A runner that changes no file and answers by the command, the environment and the place alone. Its
own part of the world may change. -/
def Runner.Settled (run : Runner σ) : Prop :=
  ∃ answer : String → Environment → Location → Except Fault CommandResult,
    ∀ command environment place w,
      ((run command environment place).run.run w).1 = answer command environment place ∧
        ((run command environment place).run.run w).2.files = w.files

/-- A step that changes no file, and whose answer comes of the files alone. -/
def JobStep.Reads (x : JobStep σ α) : Prop :=
  ∃ answer : FileTree → Except JobFailure α, ∀ s : Session σ,
    (x.run.run s).1 = answer s.world.files ∧ (x.run.run s).2.world.files = s.world.files

namespace JobStep

theorem reads_pure (a : α) : Reads (pure a : JobStep σ α) := ⟨fun _ => .ok a, fun _ => ⟨rfl, rfl⟩⟩

theorem reads_throw (f : JobFailure) : Reads (throw f : JobStep σ α) :=
  ⟨fun _ => .error f, fun _ => ⟨rfl, rfl⟩⟩

theorem reads_tell (n : Notice) : Reads (tell n : JobStep σ Unit) := ⟨fun _ => .ok (), fun _ => ⟨rfl, rfl⟩⟩

theorem Reads.bind {x : JobStep σ α} {f : α → JobStep σ β} (first : x.Reads) (next : ∀ a, (f a).Reads) :
    (x >>= f).Reads := by
  obtain ⟨answer, first⟩ := first
  choose answers next using next
  refine ⟨fun t => answer t >>= fun a => answers a t, fun s => ?_⟩
  dsimp only
  obtain ⟨told, kept⟩ := first s
  match hrun : x.run.run s with
  | (.ok a, s') =>
      rw [hrun] at told kept
      obtain ⟨toldNext, keptNext⟩ := next a s'
      rw [kept] at toldNext keptNext
      rw [run_bind_ok hrun, ← told]
      exact ⟨toldNext, keptNext⟩
  | (.error f, s') =>
      rw [hrun] at told kept
      rw [run_bind_error hrun, ← told]
      exact ⟨rfl, kept⟩

theorem reads_runPhase {run : String → JobStep σ CommandResult}
    (reads : ∀ command, (run command).Reads) (name : String) (phase : Phase)
    (commands : List String) : (runPhase run name phase commands).Reads := by
  induction commands with
  | nil => exact reads_pure ()
  | cons command rest ih =>
      rw [JobSetting.runPhase_cons]
      refine (reads command).bind fun r => ?_
      split
      · exact ih
      · exact reads_throw _

theorem reads_runCommands {run : String → JobStep σ CommandResult} (reads : ∀ command, (run command).Reads)
    (job : Job) : (runCommands run job).Reads :=
  (reads_runPhase reads _ _ _).bind fun _ => reads_runPhase reads _ _ _

end JobStep

/-- Without a cache there are no directories to make. -/
theorem Job.prepare_uncached {job : Job} (uncached : job.cache = none) (base : Environment)
    (globals : Variables) (project : Location) (t : FileTree) :
    (job.prepare base globals project t).2 = t := by
  unfold prepare
  extract_lets environment plan
  have planned : ∀ w, plan = .ok w → w.directories = [] := by
    intro w h
    obtain ⟨root, -, h⟩ := ok_of_bind_ok h
    obtain ⟨isDirectory, -, h⟩ := ok_of_bind_ok h
    split at h
    · cases h
    · rw [neededDirectories, uncached] at h
      cases h
      rfl
  clear_value plan
  cases plan with
  | error f => rfl
  | ok w => simp only [planned w rfl, makeWorkspaceDirectories]

namespace JobSetting

variable {g : JobSetting σ} {job : Job}

theorem reads_runTold (settled : Runner.Settled g.runner) (w : Workspace) (command : String) :
    (g.runTold JobStep.tell job w command).Reads := by
  obtain ⟨answer, settled⟩ := settled
  refine (JobStep.reads_tell _).bind fun _ =>
    ⟨fun _ => (answer command w.environment w.project).mapError .ofFault, fun s => ?_⟩
  obtain ⟨told, kept⟩ := settled command w.environment w.project s.world
  rw [JobStep.run_ofAction, told]
  exact ⟨rfl, kept⟩

theorem reads_prepare (uncached : job.cache = none) (base : Environment) (globals : Variables)
    (project : Location) : (JobStep.prepare job base globals project : JobStep σ Workspace).Reads :=
  ⟨fun t => (job.prepare base globals project t).1, fun _ => ⟨rfl, job.prepare_uncached uncached _ _ _ _⟩⟩

theorem afterFailure_uncached (f : JobFailure) : g.afterFailure job none f = pure () := by
  rcases f with e | f
  · cases e <;> rfl
  · rfl

theorem reads_runAndSave (settled : Runner.Settled g.runner) (w : Workspace) :
    (g.runAndSave JobStep.tell job none w).Reads := by
  obtain ⟨answer, reads⟩ := JobStep.reads_runCommands (reads_runTold settled w) job
  refine ⟨answer, fun s => ?_⟩
  obtain ⟨told, kept⟩ := reads s
  match ran : (runCommands (g.runTold JobStep.tell job w) job).run.run s with
  | (.ok (), s') =>
      rw [ran] at told kept
      rw [run_runAndSave_ok ran]
      exact ⟨told, kept⟩
  | (.error f, s') =>
      rw [ran] at told kept
      rw [run_runAndSave_error ran, afterFailure_uncached]
      exact ⟨told, kept⟩

theorem reads_runJob (settled : Runner.Settled g.runner) (uncached : job.cache = none) :
    (g.runJob job).Reads := by
  rw [runJob_eq, opening, restoring, uncached]
  simp only [pure_bind, bind_assoc]
  exact (JobStep.reads_tell _).bind fun _ => (reads_prepare uncached _ _ _).bind fun w =>
    (reads_runAndSave settled w).bind fun _ => (JobStep.reads_tell _).bind fun _ => JobStep.reads_pure _

/-- What a job comes to is told by its answer, in whatever session it is given. -/
theorem exists_result (g : JobSetting σ) (job : Job) (answer : Except JobFailure JobResult) :
    ∃ result, ∀ s s' : Session σ, (g.runJob job).run.run s = (answer, s') →
      ((g.runIsolated job).run s).1 = result ∧ ((g.runIsolated job).run s).2.world = s'.world := by
  cases answer with
  | ok r =>
      refine ⟨r, fun s s' ran => ?_⟩
      rw [run_runIsolated, ran]
      exact ⟨rfl, rfl⟩
  | error f =>
      refine ⟨failedResult job f, fun s s' ran => ?_⟩
      rw [run_runIsolated, ran]
      exact ⟨rfl, rfl⟩

/-- What a job without a cache comes to, and it leaves the files as they are. -/
theorem exists_outcome (settled : Runner.Settled g.runner) (uncached : job.cache = none) :
    ∃ outcome : FileTree → JobResult, ∀ s : Session σ,
      ((g.runIsolated job).run s).1 = outcome s.world.files ∧
        ((g.runIsolated job).run s).2.world.files = s.world.files := by
  obtain ⟨answer, reads⟩ := reads_runJob settled uncached
  choose outcome comes using fun t => exists_result g job (answer t)
  refine ⟨outcome, fun s => ?_⟩
  obtain ⟨told, kept⟩ := reads s
  obtain ⟨result, world⟩ := comes s.world.files s _ (Prod.ext told rfl)
  exact ⟨result, by rw [world, kept]⟩

/-- Jobs that run one after the other come to what each comes to alone. -/
theorem Runs.alone (settled : Runner.Settled g.runner) {s s' : Session σ} {ran : List Executed}
    (runs : g.Runs s ran s') (uncached : ∀ r ∈ ran, r.1.cache = .none) :
    ∀ r ∈ ran, ∀ s₁ : Session σ, s₁.world.files = s.world.files → ((g.runIsolated r.1).run s₁).1 = r.2 := by
  induction runs with
  | none idle => simp
  | @job s s₁ s₂ s' job result rest idle run later ih =>
      obtain ⟨here, uncached⟩ := List.forall_mem_cons.mp uncached
      obtain ⟨outcome, comes⟩ := exists_outcome settled here
      obtain ⟨told, kept⟩ := comes s₁
      rw [run, idle.world] at told kept
      refine List.forall_mem_cons.mpr ⟨fun s₃ same => ?_, fun r hr s₃ same => ?_⟩
      · rw [(comes s₃).1, same]
        exact told.symm
      · exact ih uncached r hr s₃ (same.trans kept.symm)

end JobSetting

theorem Executed.map_outcome {outcome : Job → JobResult} {ran : List Executed}
    (comes : ∀ r ∈ ran, r.2 = outcome r.1) : (ran.map (·.1)).map (fun job => (job, outcome job)) = ran := by
  have same : ∀ r ∈ ran, (r.1, outcome r.1) = r := fun r hr => Prod.ext rfl (comes r hr).symm
  rw [List.map_map]
  exact (List.map_congr_left same).trans (List.map_id ran)

/-- The stages note the same results in some order if every job that runs comes to one outcome. -/
theorem Passes.perm (outcome : Job → JobResult) {e : Event} {failFast blocked : Bool}
    {groups : List (Stage × List Job)} {ran ran' : List Executed} {notes notes' : Results}
    (h : Passes e failFast blocked groups ran notes) (h' : Passes e failFast blocked groups ran' notes')
    (comes : ∀ r ∈ ran, r.2 = outcome r.1) (comes' : ∀ r ∈ ran', r.2 = outcome r.1) :
    notes.Perm notes' := by
  induction h generalizing ran' notes' with
  | done =>
      cases h'
      exact .refl _
  | @stage blocked stage jobs groups first rest notes order concluded later ih =>
      cases h' with
      | @stage _ _ _ _ first' rest' notes' order' concluded' later' =>
          obtain ⟨here, comes⟩ := List.forall_mem_append.mp comes
          obtain ⟨here', comes'⟩ := List.forall_mem_append.mp comes'
          have perm : first.Perm first' := by
            rw [← Executed.map_outcome here, ← Executed.map_outcome here']
            exact (order.trans order'.symm).map _
          have blocks : first.any (·.2.isBlocking) = first'.any (·.2.isBlocking) := perm.any_eq
          rw [← blocks] at later'
          exact ((perm.map _).append_left _).append (ih later' comes comes')

theorem collect_congr {results results' : Results} (same : ∀ name, results.get? name = results'.get? name)
    (jobs : List Job) : collect results jobs = collect results' jobs := by
  simp only [collect, same]

namespace Pipeline

/-- The pipeline with one job only. -/
def alone (p : Pipeline) (job : Job) : Pipeline := { p with jobs := [job] }

theorem Sound.alone {p : Pipeline} (sound : p.Sound) {job : Job} (hjob : job ∈ p.jobs) :
    (p.alone job).Sound where
  stages := sound.stages
  jobs := List.nodup_singleton _
  staged := List.forall_mem_singleton.mpr (sound.staged job hjob)

variable {p : Pipeline} {options : RunOptions σ} {e : Event} {project : Location}

theorem setting_runner {g : JobSetting σ} {w w' : World σ}
    (set : (options.setting p e project).run.run w = (.ok g, w')) : g.runner = options.runner := by
  unfold RunOptions.setting at set
  obtain ⟨real, w₁, -, set⟩ := run_ok_of_bind_ok set
  extract_lets standard go at set
  have opened : ∀ store w, (go store).run.run w = (.ok g, w') → g.runner = options.runner := by
    intro store w h
    obtain ⟨_, _, -, h⟩ := run_ok_of_bind_ok h
    cases h
    rfl
  split at set
  all_goals
    obtain ⟨store, w₂, -, set⟩ := run_ok_of_bind_ok set
    exact opened store w₂ set

/-- What the stages of a run note, where every job comes to what it comes to at the start. -/
theorem Sound.run_settled (sound : p.Sound) (uncached : ∀ job ∈ p.jobs, job.cache = none)
    (settled : Runner.Settled options.runner) {s : Session σ} {g : JobSetting σ} {w : World σ}
    (set : (options.setting p e project).run.run s.world = (.ok g, w)) : ∃ ran notes,
      ((p.run e project options).run.run s).1 = collect (Table.putAll [] notes) p.ordered ∧
      Passes e options.failFast false p.groups ran notes ∧
      ∀ r ∈ ran, r.2 = ((g.runIsolated r.1).run { s with world := w }).1 := by
  obtain ⟨ran, notes, s', hrun, runs, passes⟩ := sound.run_passes set
  refine ⟨ran, notes, by rw [hrun], passes, fun r hr => ?_⟩
  have uncachedRan : ∀ r ∈ ran, r.1.cache = none := fun r hr =>
    uncached r.1 (sound.concludes_of_ran passes hr).1
  exact (runs.alone (setting_runner set ▸ settled) uncachedRan r hr _ rfl).symm

/-- An eligible job alone in its pipeline runs, and the report is its result. -/
theorem Sound.run_alone (sound : p.Sound) {job : Job} (hjob : job ∈ p.jobs) (uncached : job.cache = none)
    (settled : Runner.Settled options.runner) (eligible : job.isEligible e = true) {s : Session σ}
    {g : JobSetting σ} {w : World σ} (set : (options.setting p e project).run.run s.world = (.ok g, w)) :
    (((p.alone job).run e project options).run.run s).1 =
      .ok ⟨[((g.runIsolated job).run { s with world := w }).1]⟩ := by
  have soundAlone := sound.alone hjob
  obtain ⟨ran, notes, hrun, passes, comes⟩ := soundAlone.run_settled
    (List.forall_mem_singleton.mpr uncached) settled set
  obtain ⟨outcome, noted, ofRan, -⟩ := soundAlone.exists_outcome passes
  have only : ∀ r ∈ ran, r.1 = job := fun r hr =>
    List.mem_singleton.mp (soundAlone.concludes_of_ran passes hr).1
  obtain ⟨r, hr, rfl⟩ := (soundAlone.executed_iff passes (List.mem_singleton_self job)).mpr
    ⟨eligible, fun ⟨_, r, hr, _, before⟩ => absurd before (by rw [only r hr]; exact Int.lt_irrefl _)⟩
  have ordered : (p.alone r.1).ordered = [r.1] := List.perm_singleton.mp (p.alone r.1).ordered_perm
  rw [hrun, collect_eq noted, ordered, List.map_singleton, ofRan r hr, comes r hr]

/-- The jobs of a run come to what they come to alone, which no schedule changes. -/
theorem IsBuilt.run_independent (built : p.IsBuilt) (uncached : ∀ job ∈ p.jobs, job.cache = none)
    (settled : Runner.Settled options.runner) (e : Event) (project : Location) (s : Session σ) :
    (∀ schedule, ((p.run e project { options with schedule }).run.run s).1 =
      ((p.run e project options).run.run s).1) ∧
    match (options.setting p e project).run.run s.world with
    | (.error f, _) => ((p.run e project options).run.run s).1 = .error f
    | (.ok g, w) => ∃ report, ((p.run e project options).run.run s).1 = .ok report ∧
        ∀ r ∈ report.jobs, r.status ≠ .skipped → ∃ job ∈ p.jobs, r.name = job.name ∧
          (∀ s₁ : Session σ, s₁.world.files = w.files → ((g.runIsolated job).run s₁).1 = r) ∧
          (((p.alone job).run e project options).run.run s).1 = .ok ⟨[r]⟩ := by
  have sound := built.sound
  match set : (options.setting p e project).run.run s.world with
  | (.error f, w) =>
      have stops : ∀ schedule, ((p.run e project { options with schedule }).run.run s).1 = .error f :=
        fun schedule => congrArg Prod.fst (run_bind_error (RunStep.run_ofAction set))
      exact ⟨fun schedule => (stops schedule).trans (stops options.schedule).symm, stops options.schedule⟩
  | (.ok g, w) =>
      obtain ⟨ran, notes, hrun, passes, comes⟩ := sound.run_settled uncached settled set
      refine ⟨fun schedule => ?_, ?_⟩
      · have set' : (({ options with schedule } : RunOptions σ).setting p e project).run.run s.world =
            (.ok g, w) := set
        have settled' : Runner.Settled ({ options with schedule } : RunOptions σ).runner := settled
        obtain ⟨ran', notes', hrun', passes', comes'⟩ := sound.run_settled uncached settled' set'
        have same := passes.perm (fun job => ((g.runIsolated job).run { s with world := w }).1) passes'
          comes comes'
        have names : (notes.map (·.1)).Nodup :=
          (passes.names_of_notes.trans (sound.groups_perm.map _)).nodup_iff.mpr sound.jobs
        rw [hrun, hrun']
        exact collect_congr (fun name => (Table.get?_putAll_perm same names [] name).symm) p.ordered
      · obtain ⟨outcome, noted, ofRan, ofSkipped⟩ := sound.exists_outcome passes
        refine ⟨_, hrun.trans (Sound.collect_eq noted), fun r hr executed => ?_⟩
        obtain ⟨job, hjob, rfl⟩ := List.mem_map.mp hr
        have hjob := p.ordered_perm.mem_iff.mp hjob
        by_cases hran : ∃ r ∈ ran, r.1 = job
        · obtain ⟨x, hx, rfl⟩ := hran
          obtain ⟨-, eligible, concludes⟩ := sound.concludes_of_ran passes hx
          obtain ⟨result, alone⟩ :=
            JobSetting.exists_outcome (setting_runner set ▸ settled) (uncached x.1 hjob)
          refine ⟨x.1, hjob, ?_, fun s₁ same => ?_, ?_⟩
          · rw [ofRan x hx, concludes.name]
          · rw [ofRan x hx, comes x hx, (alone s₁).1, same, (alone _).1]
          · rw [sound.run_alone hjob (uncached x.1 hjob) settled eligible set, ofRan x hx, comes x hx]
        · have skipped := ofSkipped job hjob fun r hr same => hran ⟨r, hr, same⟩
          exact absurd (by rw [skipped]; rfl) executed

/-- Two jobs of one stage. -/
def sameStage : Pipeline where
  stages := Stage.number ["test"]
  jobs := [
    { name := "lint", stage := "test", script := ["lint"] },
    { name := "check", stage := "test", script := ["make check"] }]

def backwards : Schedule := ⟨fun _ jobs => jobs.reverse, fun _ jobs => jobs.reverse_perm⟩

theorem isBuilt_sameStage : sameStage.IsBuilt := by
  have distinct : repeatedNames ["test"] = [] := by simp [repeatedNames]
  have checked : Build.checkJobs ["test"] [] sameStage.jobs = .ok () := rfl
  refine .written ["test"] sameStage.jobs [] ?_
  rw [Build.pipeline, distinct]
  simp only [checked]
  rfl

theorem run_independent_backwards : ∃ report,
    ((sameStage.run ⟨"push", none, none⟩ [] failingOptions).run.run ⟨⟨{}, [], ()⟩, []⟩).1 = .ok report ∧
    ((sameStage.run ⟨"push", none, none⟩ [] { failingOptions with schedule := backwards }).run.run
      ⟨⟨{}, [], ()⟩, []⟩).1 = .ok report := by
  have settled : Runner.Settled failingOptions.runner :=
    ⟨fun command _ _ => .ok ⟨command, 1, "", ""⟩, fun _ _ _ _ => ⟨rfl, rfl⟩⟩
  obtain ⟨g, set⟩ := setting_failingOptions sameStage ⟨"push", none, none⟩
  obtain ⟨same, found⟩ := isBuilt_sameStage.run_independent (by simp [sameStage]) settled
    ⟨"push", none, none⟩ [] ⟨⟨{}, [], ()⟩, []⟩
  rw [set] at found
  obtain ⟨report, hrun, -⟩ := found
  exact ⟨report, hrun, (same backwards).trans hrun⟩

end Pipeline

end Conveyor
