import Conveyor.Proofs.Run.Schedule

/-!
The report of a run. A run of a store that was given starts where its paths can be resolved; then it
ends with one result for each job, in the order of the jobs, whatever its jobs, the store and the
runner do. Whether a job runs is not decided by the other jobs of its stage. What happens around the jobs
has to be told for that; what happens in a job may be told or not.
-/

namespace Conveyor

/-- A text that is not empty has a first line. -/
theorem Text.lines_ne_nil {s : String} (h : s ≠ "") : lines s ≠ [] := by
  have open_ : ∀ current cs, current ≠ [] ∨ cs ≠ [] → linesFrom current cs ≠ [] := by
    intro current cs nonempty
    fun_induction linesFrom current cs with
    | case1 current hcurrent => simp_all
    | case2 current hcurrent => simp
    | case3 current rest ih => simp
    | case4 current c rest _ hend ih => simp
    | case5 current c rest _ hend ih => exact ih (.inl (by simp))
  have chars : s.toList ≠ [] := by simpa using h
  simpa [lines] using open_ [] s.toList (.inr chars)

variable {σ : Type}

/-- The directory that a run tells its jobs to cache in: the root of the store, or the standard one. -/
def Store.cacheDirectory (store : Store σ) (project : Location) : Location :=
  store.root.getD (project ++ pathParts defaultCacheDirectory)

/-- The project and the cache directory of a run have real places. -/
def Store.StartsIn (store : Store σ) (t : FileTree) (project : Location) : Prop :=
  ∃ real root, t.resolve project = .ok real ∧ t.resolve (store.cacheDirectory real) = .ok root

namespace RunOptions

variable {options : RunOptions σ} {store : Store σ}

/-- What a run asks before its first job: where the project and the cache directory are. -/
theorem setting_run (given : options.store = some store) (p : Pipeline) (e : Event)
    (project : Location) (w : World σ) :
    (store.StartsIn w.files project →
      ∃ g, g.store = store ∧ g.runner = options.runner ∧
        (options.setting p e project).run.run w = (.ok g, w)) ∧
    (¬store.StartsIn w.files project →
      ∃ f, (options.setting p e project).run.run w = (.error f, w)) := by
  rw [setting]
  cases hreal : w.files.resolve project with
  | error f =>
      have none : ¬store.StartsIn w.files project := by
        rintro ⟨real, root, hproject, -⟩
        rw [hreal] at hproject
        cases hproject
      refine ⟨fun starts => absurd starts none, fun _ => ⟨f, ?_⟩⟩
      exact run_bind_error (Action.run_ask_of hreal)
  | ok real =>
      rw [run_bind_ok (Action.run_ask_of hreal), given]
      dsimp only
      rw [run_bind_ok (run_pure _ _)]
      cases hroot : w.files.resolve (store.cacheDirectory real) with
      | error f =>
          have none : ¬store.StartsIn w.files project := by
            rintro ⟨real', root, hproject, hcache⟩
            rw [hreal] at hproject
            cases hproject
            rw [hroot] at hcache
            cases hcache
          refine ⟨fun starts => absurd starts none, fun _ => ⟨f, ?_⟩⟩
          exact run_bind_error (Action.run_ask_of hroot)
      | ok root =>
          refine ⟨fun _ => ?_, fun none => absurd ⟨real, root, hreal, hroot⟩ none⟩
          rw [run_bind_ok (Action.run_ask_of hroot)]
          exact ⟨_, rfl, rfl, rfl⟩

end RunOptions

namespace Pipeline

/-- A report on the jobs of a pipeline, of which some have run. -/
structure Reports (p : Pipeline) (e : Event) (failFast : Bool) (ran : List Executed)
    (report : RunReport) : Prop where
  complete : ∃ jobs, p.jobsInOrder = .ok jobs ∧
    report.jobs.map (fun r => (r.name, r.stage)) = jobs.map fun j => (j.name, j.stage)
  ended : ∀ r ∈ report.jobs, r.status = .success ∨ r.status = .failed ∨ r.status = .skipped
  own : ∀ r ∈ ran, r.1 ∈ p.jobs ∧ r.2 ∈ report.jobs ∧ r.2.name = r.1.name ∧ r.2.status ≠ .skipped
  executed : ∀ job ∈ p.jobs, (∃ r ∈ ran, r.1 = job) ↔ job.isEligible e = true ∧
    ¬(failFast = true ∧ ∃ r ∈ ran, r.Fails ∧ p.positionOf r.1 < p.positionOf job)

namespace Sound

variable {p : Pipeline} {e : Event} {failFast : Bool} {ran : List Executed} {notes : Results}

section

variable (sound : p.Sound) (passes : Passes e failFast false p.groups ran notes)
include sound passes

theorem concludes_of_ran {r : Executed} (hr : r ∈ ran) :
    r.1 ∈ p.jobs ∧ r.1.isEligible e = true ∧ r.2.Concludes r.1 := by
  obtain ⟨hjob, rest⟩ := passes.of_mem r hr
  exact ⟨(sound.mem_groups r.1).mp hjob, rest⟩

/-- A job is executed if it is eligible, unless a job of an earlier stage has failed. -/
theorem executed_iff {job : Job} (hjob : job ∈ p.jobs) : (∃ r ∈ ran, r.1 = job) ↔
    job.isEligible e = true ∧
      ¬(failFast = true ∧ ∃ r ∈ ran, r.Fails ∧ p.positionOf r.1 < p.positionOf job) := by
  have fails_iff : ∀ r ∈ ran, r.2.isBlocking = true ↔ r.Fails := fun r hr =>
    (sound.concludes_of_ran passes hr).2.2.isBlocking_iff
  have fails : (∃ r ∈ ran, r.2.isBlocking = true ∧ p.positionOf r.1 < p.positionOf job) ↔
      ∃ r ∈ ran, r.Fails ∧ p.positionOf r.1 < p.positionOf job :=
    exists_congr fun r => and_congr_right fun hr => and_congr_left' (fails_iff r hr)
  by_cases eligible : job.isEligible e = true
  · rw [passes.ran_iff sound.placed ((sound.mem_groups job).mpr hjob) eligible, fails]
    simp [eligible]
  · refine ⟨?_, fun h => absurd h.1 eligible⟩
    rintro ⟨r, hr, rfl⟩
    exact absurd (sound.concludes_of_ran passes hr).2.1 eligible

/-- What the stages do is reported in full. -/
theorem reports : ∃ report, collect (Table.putAll [] notes) p.ordered = .ok report ∧
    p.Reports e failFast ran report := by
  obtain ⟨outcome, noted, ofRan, ofSkipped⟩ := sound.exists_outcome passes
  -- a job that ran has concluded, and any other is reported as skipped
  have ended : ∀ job ∈ p.jobs, (outcome job).name = job.name ∧ (outcome job).stage = job.stage ∧
      ((outcome job).status = .success ∨ (outcome job).status = .failed ∨
        (outcome job).status = .skipped) := by
    intro job hjob
    by_cases hran : ∃ r ∈ ran, r.1 = job
    · obtain ⟨r, hr, rfl⟩ := hran
      have concludes := (sound.concludes_of_ran passes hr).2.2
      rw [ofRan r hr]
      exact ⟨concludes.name, concludes.stage, concludes.terminal.imp_right .inl⟩
    · rw [ofSkipped job hjob fun r hr heq => hran ⟨r, hr, heq⟩]
      exact ⟨rfl, rfl, .inr (.inr rfl)⟩
  have ordered : ∀ job ∈ p.ordered, job ∈ p.jobs := fun job => p.ordered_perm.mem_iff.mp
  refine ⟨_, collect_eq noted, ⟨p.ordered, sound.jobsInOrder_eq, ?_⟩, ?_, ?_, fun job hjob =>
    sound.executed_iff passes hjob⟩
  · rw [List.map_map]
    refine List.map_congr_left fun job hjob => ?_
    obtain ⟨name, stage, -⟩ := ended job (ordered job hjob)
    exact Prod.ext name stage
  · intro r hr
    obtain ⟨job, hjob, rfl⟩ := List.mem_map.mp hr
    exact (ended job (ordered job hjob)).2.2
  · intro r hr
    obtain ⟨hjob, -, concludes⟩ := sound.concludes_of_ran passes hr
    refine ⟨hjob, ?_, concludes.name, ?_⟩
    · rw [← ofRan r hr]
      exact List.mem_map_of_mem (p.ordered_perm.mem_iff.mpr hjob)
    · rcases concludes.terminal with h | h <;> simp [h]

end

end Sound

/-- A run with a store that was given starts where its paths can be resolved. Then it ends with a full
report, whatever the store and the runner do, and whatever is told in the jobs or cannot be told, as long
as the notices around the jobs are told; otherwise nothing is done. -/
theorem IsBuilt.run_reports {p : Pipeline} (built : p.IsBuilt) (e : Event) (project : Location)
    (options : RunOptions σ) {store : Store σ} (given : options.store = some store)
    {printer : Printer σ} (tells : printer.TellsAround) (s : Session σ) :
    (store.StartsIn s.world.files project → ∃ ran report s',
      (p.runPrinted printer e project options).run.run s = (.ok report, s') ∧
      (∃ g : JobSetting σ, g.store = store ∧ g.runner = options.runner ∧
        InTurn (g.runIsolatedBy printer) s ran s') ∧
      p.Reports e options.failFast ran report) ∧
    (¬store.StartsIn s.world.files project → ∃ f,
      (p.runPrinted printer e project options).run.run s = (.error f, s)) ∧
    ∀ reason, reason ≠ "" → Text.lines reason ≠ [] := by
  have sound := built.sound
  obtain ⟨starts, stays⟩ := options.setting_run given p e project s.world
  refine ⟨fun found => ?_, fun none => ?_, fun _ => Text.lines_ne_nil⟩
  · obtain ⟨g, hstore, hrunner, hsetting⟩ := starts found
    obtain ⟨ran, notes, s', hrun, runs, passes⟩ := sound.runPrinted_passes hsetting tells
    obtain ⟨report, hcollect, reports⟩ := sound.reports passes
    exact ⟨ran, report, s', by rw [hrun, hcollect], ⟨g, hstore, hrunner, runs⟩, reports⟩
  · obtain ⟨f, hsetting⟩ := stays none
    exact ⟨f, run_bind_error (RunStep.run_ofAction hsetting)⟩

/-- A run whose commands all fault, with a store in memory. -/
def faultingOptions : RunOptions Unit where
  store := some MemoryStore.store
  runner := fun _ _ _ => throw (.foreign "RuntimeError" "no such container")
  environment := []

/-- What a stream that is closed answers. -/
def closedFault : Fault := .foreign "ValueError" "I/O operation on closed file."

/-- A console that can tell nothing of what happens in a job. -/
def mutePrinter : Printer Unit
  | .stage name jobs => RunStep.tell (.stage name jobs)
  | .jobSkipped job reason => RunStep.tell (.jobSkipped job reason)
  | .jobFailed job reason exitCode output => RunStep.tell (.jobFailed job reason exitCode output)
  | _ => throw closedFault

theorem tellsAround_mutePrinter : mutePrinter.TellsAround := by
  intro n around s
  cases n with
  | stage | jobSkipped | jobFailed => rfl
  | _ => cases around

theorem startsIn_empty : (MemoryStore.store : Store Unit).StartsIn {} ["project"] := by
  have noLinks : ∀ l, FileTree.LinkFree {} l := fun l m hm target => by
    cases m <;> simp [FileTree.entryAt?, Table.get?]
  exact ⟨["project"], ["project", ".stageci", "cache"], FileTree.resolve_eq (by decide) (noLinks _),
    FileTree.resolve_eq (by decide) (noLinks _)⟩

/-- A run reports in full where every command faults, and where nothing in a job can be told. -/
theorem run_reports_faulting :
    (∃ ran report s', (twoStages.run ⟨"push", none, none⟩ ["project"] faultingOptions).run.run
        ⟨⟨{}, [], ()⟩, []⟩ = (.ok report, s') ∧
      twoStages.Reports ⟨"push", none, none⟩ true ran report) ∧
    ∃ ran report s', (twoStages.runPrinted mutePrinter ⟨"push", none, none⟩ ["project"]
        faultingOptions).run.run ⟨⟨{}, [], ()⟩, []⟩ = (.ok report, s') ∧
      twoStages.Reports ⟨"push", none, none⟩ true ran report := by
  constructor
  · obtain ⟨ran, report, s', hrun, -, reports⟩ := (isBuilt_twoStages.run_reports ⟨"push", none, none⟩
      ["project"] faultingOptions rfl tellsAround_tell ⟨⟨{}, [], ()⟩, []⟩).1 startsIn_empty
    exact ⟨ran, report, s', hrun, reports⟩
  · obtain ⟨ran, report, s', hrun, -, reports⟩ := (isBuilt_twoStages.run_reports ⟨"push", none, none⟩
      ["project"] faultingOptions rfl tellsAround_mutePrinter ⟨⟨{}, [], ()⟩, []⟩).1 startsIn_empty
    exact ⟨ran, report, s', hrun, reports⟩

/-- A project with a link to itself where the standard cache directory would be. -/
def loopingTree : FileTree where
  entries := [(["project"], .directory), (["project", ".stageci"], .link ".stageci")]

/-- However many links may be followed, the last of them leads to itself again. -/
theorem locate_loopingTree (links : Nat) :
    loopingTree.locate true links ["project"] [".stageci", "cache"] = .error .linkLoop := by
  have directory : loopingTree.isDirectoryAt ["project"] = true := rfl
  have link : loopingTree.entryAt? ["project", ".stageci"] = some (.link ".stageci") := rfl
  have short : ¬FileTree.nameLimit < ".stageci".utf8ByteSize := by decide
  have start : FileTree.linkStart ["project"] ".stageci" = ["project"] := by simp [FileTree.linkStart]
  have target : pathParts ".stageci" = [".stageci"] := rfl
  induction links with
  | zero => simp [FileTree.locate, directory, link, short]
  | succ links ih => simp [FileTree.locate, directory, link, short, start, target, ih]

theorem resolve_loopingTree : loopingTree.resolve ["project", ".stageci", "cache"] =
    .error (.linkLoop "/project/.stageci/cache") := by
  have target : pathParts ".stageci" = [".stageci"] := rfl
  have real : loopingTree.resolveFrom [] [] ["project", ".stageci", "cache"] =
      (["project", ".stageci", "cache"], false) := by
    simp [FileTree.resolveFrom, FileTree.entryAt?, FileTree.linkStart, loopingTree, Table.get?, target,
      FileTree.foldDots]
  have loops : loopingTree.follow ["project", ".stageci", "cache"] = .error .linkLoop := by
    have directory : loopingTree.entryAt? ["project"] = some .directory := rfl
    rw [FileTree.follow, FileTree.locate_name (by decide) rfl (by simp [directory]), if_neg (by simp),
      if_neg (by simp [directory])]
    exact locate_loopingTree _
  simp only [FileTree.resolve, FileTree.noNul_of_names (l := ["project", ".stageci", "cache"]) (by decide),
    Bool.false_eq_true, if_false, real, loops]
  rfl

theorem run_loopingTree : (twoStages.run ⟨"push", none, none⟩ ["project"] faultingOptions).run.run
    ⟨⟨loopingTree, [], ()⟩, []⟩ =
      (.error (.linkLoop "/project/.stageci/cache"), ⟨⟨loopingTree, [], ()⟩, []⟩) := by
  have project : loopingTree.resolve ["project"] = .ok ["project"] := by
    refine FileTree.resolve_eq (by decide) fun m hm target => ?_
    have : m = [] ∨ m = ["project"] := by simpa [List.prefix_cons_iff] using hm
    rcases this with rfl | rfl <;> simp [FileTree.entryAt?, loopingTree, Table.get?]
  have fails : (faultingOptions.setting twoStages ⟨"push", none, none⟩ ["project"]).run.run
      ⟨loopingTree, [], ()⟩ = (.error (.linkLoop "/project/.stageci/cache"), ⟨loopingTree, [], ()⟩) := by
    rw [RunOptions.setting, run_bind_ok (Action.run_ask_of project)]
    dsimp only [faultingOptions]
    rw [run_bind_ok (run_pure _ _)]
    exact run_bind_error (Action.run_ask_of resolve_loopingTree)
  exact run_bind_error (RunStep.run_ofAction fails)

/-- A stream that is closed once a stage has been told. -/
def closedPrinter : Printer Unit
  | .stage name jobs => RunStep.tell (.stage name jobs)
  | _ => throw closedFault

theorem ordered_twoStages : twoStages.ordered = twoStages.jobs := by
  rw [ordered, List.mergeSort_of_pairwise (by decide)]
  rfl

theorem groups_twoStages : twoStages.groups = [
    (⟨"build", 0⟩, [{ name := "compile", stage := "build", script := ["make"] }]),
    (⟨"test", 1⟩, [{ name := "check", stage := "test", script := ["make check"] }])] := by
  rw [groups, ordered_twoStages]
  rfl

/-- The first job cannot tell that it starts, and that it has failed for this cannot be told either. -/
theorem runStages_closedPrinter (g : JobSetting Unit) (s : Session Unit) :
    (runStages closedPrinter g .declared true (.ofPlan (twoStages.jobs.map fun job =>
        ⟨job, job.isEligible ⟨"push", none, none⟩, job.planReason ⟨"push", none, none⟩⟩)) false []
      twoStages.groups).run.run s = (.error closedFault, s.tell (.stage "build" ["compile"])) := by
  rw [groups_twoStages]
  rfl

theorem run_closedPrinter : (twoStages.runPrinted closedPrinter ⟨"push", none, none⟩ ["project"]
    faultingOptions).run.run ⟨⟨{}, [], ()⟩, []⟩ =
      (.error closedFault, ⟨⟨{}, [], ()⟩, [.stage "build" ["compile"]]⟩) := by
  obtain ⟨g, -, -, set⟩ := (faultingOptions.setting_run rfl twoStages ⟨"push", none, none⟩ ["project"]
    ⟨{}, [], ()⟩).1 startsIn_empty
  have sound := isBuilt_twoStages.sound
  unfold runPrinted
  rw [run_bind_ok (RunStep.run_ofAction set), sound.plan_eq, sound.jobsByStage_eq, sound.jobsInOrder_eq,
    ordered_twoStages]
  simp only [needStage_ok]
  rw [run_bind_ok (RunStep.run_ofExcept _ _), run_bind_ok (RunStep.run_ofExcept _ _)]
  exact run_bind_error (runStages_closedPrinter g _)

/-- A run does not report on a project with a looping link, and it does not where the failure of a job
cannot be told. -/
theorem runs_that_report_nothing : twoStages.IsBuilt ∧
    (twoStages.run ⟨"push", none, none⟩ ["project"] faultingOptions).run.run
      ⟨⟨loopingTree, [], ()⟩, []⟩ =
        (.error (.linkLoop "/project/.stageci/cache"), ⟨⟨loopingTree, [], ()⟩, []⟩) ∧
    (twoStages.runPrinted closedPrinter ⟨"push", none, none⟩ ["project"] faultingOptions).run.run
      ⟨⟨{}, [], ()⟩, []⟩ = (.error closedFault, ⟨⟨{}, [], ()⟩, [.stage "build" ["compile"]]⟩) :=
  ⟨isBuilt_twoStages, run_loopingTree, run_closedPrinter⟩

end Pipeline

end Conveyor
