import Conveyor.Proofs.Cache.Fault
import Conveyor.Proofs.Run.Calls

/-!
The exit code of a run. It is told by the jobs that have failed for good: by how the commands of these
jobs ended, and by nothing that the other jobs did.
-/

namespace Conveyor

variable {σ : Type}

namespace RunReport

variable (report : RunReport)

theorem mem_blockingKinds (kind : Option FailureKind) : kind ∈ report.blockingKinds ↔
    ∃ x ∈ report.jobs, x.isBlocking = true ∧ x.failure = kind := by
  simp [blockingKinds, and_assoc]

theorem blockingKinds_eq_nil : report.blockingKinds = [] ↔ ∀ x ∈ report.jobs, x.isBlocking = false := by
  simp [blockingKinds]

theorem succeeded_iff : report.succeeded = true ↔ ∀ x ∈ report.jobs, x.isBlocking = false := by
  simp [succeeded]

/-- The four exit codes, by the kinds of the failures for good. -/
theorem exitCode_cases : (report.exitCode = 0 ↔ report.blockingKinds = []) ∧
    (report.exitCode = 1 ↔ some .script ∈ report.blockingKinds) ∧
    (report.exitCode = 2 ↔ some .script ∉ report.blockingKinds ∧ some .setup ∈ report.blockingKinds) ∧
    (report.exitCode = 3 ↔ report.blockingKinds ≠ [] ∧ some .script ∉ report.blockingKinds ∧
      some .setup ∉ report.blockingKinds) := by
  unfold exitCode
  generalize report.blockingKinds = kinds
  by_cases none : kinds = []
  · simp [none]
  · by_cases script : some .script ∈ kinds <;> by_cases setup : some .setup ∈ kinds <;>
      simp [none, script, setup]

/-- Results that do not block may be left out. -/
theorem exitCode_filter {kept : JobResult → Bool}
    (blocking : ∀ x ∈ report.jobs, x.isBlocking = true → kept x = true) :
    exitCode ⟨report.jobs.filter kept⟩ = report.exitCode := by
  have same : blockingKinds ⟨report.jobs.filter kept⟩ = report.blockingKinds := by
    unfold blockingKinds
    rw [List.filter_filter]
    congr 1
    refine List.filter_congr fun x hx => ?_
    cases blocks : x.isBlocking with
    | false => rw [Bool.false_and]
    | true => rw [blocking x hx blocks, Bool.true_and]
  unfold exitCode
  rw [same]

end RunReport

section Commands

theorem feedFiles_isOfCommand {t : FileTree} {project : Location} {s : Sha256.Hasher} {files : List String}
    {f : JobFailure} (h : feedFiles t project s files = .error f) : f.isOfCommand = false := by
  induction files generalizing s with
  | nil => cases h
  | cons name rest ih =>
      rw [feedFiles] at h
      split at h
      · cases h
        rfl
      · cases h
        rfl
      · split at h
        · cases h
          rfl
        · exact ih h

theorem JobSetting.resolveKey_isOfCommand {g : JobSetting σ} {job : Job} {c : CacheSpec} {t : FileTree}
    {f : JobFailure} (h : g.resolveKey job c t = .error f) : f.isOfCommand = false := by
  unfold resolveKey at h
  split at h
  · cases h
    rfl
  · rcases error_of_bind_error h with body | ⟨body, -, h⟩
    · unfold CacheSpec.keyBody at body
      split at body
      · cases body
      · rcases error_of_bind_error body with fed | ⟨_, -, body⟩
        · exact feedFiles_isOfCommand fed
        · cases body
    · split at h <;> cases h

theorem makeWorkspaceDirectories_isOfCommand {name : String} {t : FileTree} {places : List Location}
    {f : JobFailure} (h : (makeWorkspaceDirectories name t places).1 = .error f) :
    f.isOfCommand = false := by
  induction places generalizing t with
  | nil => cases h
  | cons place rest ih =>
      rw [makeWorkspaceDirectories] at h
      split at h
      · cases h
        rfl
      · exact ih h
      · cases h
        rfl
      · cases h
        rfl
      · split at h
        · exact ih h
        · cases h
          unfold directoryFailure
          split <;> rfl

theorem isOfCommand_of_mapError {α : Type} {answer : Except Fault α} {f : JobFailure}
    (h : answer.mapError JobFailure.fault = .error f) : f.isOfCommand = false := by
  cases answer <;> cases h
  rfl

theorem Job.prepare_isOfCommand {job : Job} {base : Environment} {globals : Variables} {project : Location}
    {t : FileTree} {f : JobFailure} (h : (job.prepare base globals project t).1 = .error f) :
    f.isOfCommand = false := by
  unfold prepare at h
  extract_lets environment plan at h
  have planned : ∀ f, plan = .error f → f.isOfCommand = false := by
    intro f h
    rcases error_of_bind_error h with h | ⟨root, -, h⟩
    · exact isOfCommand_of_mapError h
    · rcases error_of_bind_error h with h | ⟨there, -, h⟩
      · exact isOfCommand_of_mapError h
      · split at h
        · cases h
          rfl
        · rcases error_of_bind_error h with h | ⟨directories, -, h⟩
          · exact isOfCommand_of_mapError h
          · cases h
  clear_value plan
  cases plan with
  | error f' =>
      cases h
      exact planned f rfl
  | ok w =>
      dsimp only at h
      split at h
      · cases h
      · rename_i made
        cases h
        exact makeWorkspaceDirectories_isOfCommand (by rw [made])

/-- The kind of a failure of a command. -/
def Phase.kind : Phase → FailureKind
  | .command => .general
  | .setup => .setup
  | .script => .script

theorem JobError.kind_command (phase : Phase) (failed : CommandFailure) :
    (JobError.command phase failed).kind = phase.kind := by
  cases phase <;> rfl

/-- A runner and a store that end in no error that jobs declare. -/
structure JobSetting.Undeclared (g : JobSetting σ) : Prop where
  runner : ∀ line environment place, (g.runner line environment place).Undeclared
  store : g.store.Undeclared

/-- A command of a phase exits with a number other than zero. -/
def Happening.ExitsNonzero (g : JobSetting σ) (phase : Phase) (e : Happening σ) : Prop :=
  ∃ place line result, e.call = .command phase place line ∧
    (g.runner line place.environment place.project).run.run e.before = (.ok result, e.after) ∧
      result.exitCode ≠ 0

theorem Action.Undeclared.outcome {α : Type} {a : Action σ α} (undeclared : a.Undeclared) {w w' : World σ}
    {f : JobFailure} (h : a.outcome w = (some f, w')) : f.isOfCommand = false := by
  have failed := (Prod.mk.inj h).1
  match run : (a.run.run w).1 with
  | .ok b =>
      rw [run] at failed
      cases failed
  | .error fault =>
      rw [run] at failed
      have own := undeclared w
      rw [run] at own
      cases fault with
      | declared e => exact absurd rfl (own e)
      | _ =>
          cases failed
          rfl

variable {g : JobSetting σ} {job : Job}

/-- Only a command fails as commands do, and it does by its exit. -/
theorem JobSetting.Undeclared.perform (undeclared : g.Undeclared) {e : Happening σ} {f : JobFailure}
    (performed : g.perform job e.call e.before = (some f, e.after)) (ofCommand : f.isOfCommand = true) :
    ∃ phase failed, f = .error (.command phase failed) ∧ e.ExitsNonzero g phase := by
  obtain ⟨call, w, failure, w'⟩ := e
  have other : f.isOfCommand = false → False := fun h => by
    rw [h] at ofCommand
    cases ofCommand
  cases call with
  | resolveKey c =>
      exact (other (resolveKey_isOfCommand ((failure?_eq_some _ _).mp (Prod.mk.inj performed).1))).elim
  | prepare =>
      exact (other (Job.prepare_isOfCommand ((failure?_eq_some _ _).mp (Prod.mk.inj performed).1))).elim
  | restore c key =>
      refine (other (Action.Undeclared.outcome ?_ performed)).elim
      exact .ite (.pure _) (undeclared.store.restore _ _ _)
  | save c key => exact (other ((undeclared.store.save _ _ _).outcome performed)).elim
  | prune c keep =>
      unfold JobSetting.perform at performed
      dsimp only at performed
      split at performed
      · rename_i prune own
        exact (other ((undeclared.store.prune prune own _ _).outcome performed)).elim
      · cases performed
  | command phase place line =>
      unfold JobSetting.perform at performed
      dsimp only at performed
      have own := undeclared.runner line place.environment place.project w
      split at performed
      · rename_i result w₁ run
        obtain ⟨failed, rfl⟩ := Prod.mk.inj performed
        split at failed
        · cases failed
        · rename_i nonzero
          cases failed
          exact ⟨phase, _, rfl, place, line, result, rfl, run, by simpa [CommandResult.isOk] using nonzero⟩
      · rename_i fault w₁ run
        rw [run] at own
        cases fault with
        | declared e => exact absurd rfl (own e)
        | _ =>
            cases performed
            cases ofCommand

end Commands

namespace JobRun

variable {r : JobRun σ}

/-- The commands of a job end with one of a phase that exits with a number other than zero. -/
def EndsOn (r : JobRun σ) (phase : Phase) : Prop :=
  ∃ steps ending e, r.Makes steps ending ∧ steps.getLast? = some e ∧ e.ExitsNonzero r.setting phase

theorem EndsOn.failure {phase : Phase} (ends : r.EndsOn phase) : r.result.failure = some phase.kind := by
  obtain ⟨steps, ending, e, made, last, place, line, result, call, run, nonzero⟩ := ends
  obtain ⟨steps', ending', made', recorded, -⟩ := r.exists_makes
  obtain ⟨rfl, -⟩ := made.unique made'
  obtain ⟨_, _, _, _, opened, -⟩ := made
  have he := List.mem_of_getLast? last
  have performed := opened.performed e he
  rw [call, JobSetting.perform, run] at performed
  have failed : e.failure = some (.error (.command phase (result.failure r.job.name))) := by
    rw [← (Prod.mk.inj performed).1, if_neg (by simpa [CommandResult.isOk] using nonzero)]
  rw [recorded e he _ failed]
  exact congrArg some (JobError.kind_command phase _)

theorem command_of_kind {f : JobFailure} {phase : Phase} (kind : f.kind = phase.kind)
    (listed : phase ≠ .command) : ∃ failed, f = .error (.command phase failed) := by
  rcases f with (_ | _ | _ | ⟨_ | _ | _, failed⟩) | f <;> cases phase <;>
    simp_all [JobFailure.kind, JobError.kind, Phase.kind]

/-- The kind of a failure tells whether a command of a phase has ended the job. -/
theorem endsOn_iff (undeclared : r.setting.Undeclared) (failed : r.result.status = .failed)
    {phase : Phase} (listed : phase ≠ .command) : r.EndsOn phase ↔ r.result.failure = some phase.kind := by
  refine ⟨EndsOn.failure, fun kind => ?_⟩
  obtain ⟨steps, ending, made, -, stems⟩ := r.exists_makes
  obtain ⟨f, result, stems⟩ := stems failed
  rw [result] at kind
  obtain ⟨failed, rfl⟩ := command_of_kind (Option.some.inj kind) listed
  have whole := made
  obtain ⟨_, _, _, _, opened, -, closed⟩ := made
  rcases stems with ⟨e, he, stopped⟩ | ⟨e, he, stopped⟩ | ⟨_, _, -, -, unknown⟩
  · have performed := opened.performed e he
    rw [stopped] at performed
    obtain ⟨phase', failed', same, exits⟩ := undeclared.perform performed rfl
    cases same
    exact ⟨steps, ending, e, whole, opened.getLast?_of_failure he stopped, exits⟩
  · -- the calls after the commands are requests to the store
    have performed := closed.performed e he
    rw [stopped] at performed
    obtain ⟨phase', failed', -, place, line, result, call, -⟩ := undeclared.perform performed rfl
    obtain ⟨c, -, -, saved | pruned⟩ := JobSetting.mem_closingCalls (closed.mem_plan he)
    · cases call.symm.trans saved
    · obtain ⟨keep, pruned⟩ := JobSetting.mem_pruneCalls pruned
      cases call.symm.trans pruned
  · cases unknown

end JobRun

namespace Pipeline

theorem exists_firstFailure (p : Pipeline) {ran : List Executed} (fails : ∃ r ∈ ran, r.Fails) :
    ∃ n, p.FirstFailure ran n := by
  induction ran with
  | nil => simp at fails
  | cons r rest ih =>
      by_cases later : ∃ r ∈ rest, r.Fails
      · obtain ⟨n, ⟨x, hx, failed, rfl⟩, first⟩ := ih later
        by_cases itself : r.Fails ∧ p.positionOf r.1 < p.positionOf x.1
        · refine ⟨_, ⟨r, List.mem_cons_self, itself.1, rfl⟩, fun y hy failed => ?_⟩
          rcases List.mem_cons.mp hy with rfl | hy
          · exact Int.le_refl _
          · have := first y hy failed
            omega
        · refine ⟨_, ⟨x, List.mem_cons_of_mem _ hx, failed, rfl⟩, fun y hy failed => ?_⟩
          rcases List.mem_cons.mp hy with rfl | hy
          · exact Int.not_lt.mp fun lt => itself ⟨failed, lt⟩
          · exact first y hy failed
      · obtain ⟨x, hx, failed⟩ := fails
        have only : ∀ y ∈ r :: rest, y.Fails → y = r := fun y hy failed =>
          (List.mem_cons.mp hy).resolve_right fun hy => later ⟨y, hy, failed⟩
        obtain rfl := only x hx failed
        exact ⟨_, ⟨x, List.mem_cons_self, failed, rfl⟩, fun y hy failed =>
          Int.le_of_eq (by rw [only y hy failed])⟩

/-- Jobs with one position are of one stage. -/
theorem Sound.stage_of_position {p : Pipeline} (sound : p.Sound) {a b : Job} (ha : a ∈ p.jobs)
    (hb : b ∈ p.jobs) (same : p.positionOf a = p.positionOf b) : a.stage = b.stage := by
  obtain ⟨s, hs, name⟩ := List.mem_map.mp (sound.staged a ha)
  obtain ⟨s', hs', name'⟩ := List.mem_map.mp (sound.staged b hb)
  rw [sound.positionOf_eq hs name.symm, sound.positionOf_eq hs' name'.symm] at same
  have positions : (p.stages.map (·.position)).Nodup :=
    List.pairwise_map.mpr (sound.sorted_stages.imp fun lt => Int.ne_of_lt lt)
  rw [← name, ← name', List.inj_on_of_nodup_map positions hs hs' same]

namespace Scheduled

variable {p : Pipeline} {e : Event} {failFast : Bool} {ran : List Executed} {report : RunReport}

/-- A job that has not run is reported as skipped. -/
theorem skips (scheduled : p.Scheduled e failFast ran report) {job : Job} (hjob : job ∈ p.jobs)
    (idle : ∀ r ∈ ran, r.1 ≠ job) : ∃ reason, Skips ran report job reason := by
  have unbroken : ¬∃ r ∈ ran, r.1 = job := fun ⟨r, hr, same⟩ => idle r hr same
  cases eligible : job.isEligible e with
  | false => exact ⟨_, scheduled.ineligible job hjob eligible⟩
  | true =>
      by_cases broken : failFast = true ∧ ∃ r ∈ ran, r.Fails
      · obtain ⟨n, first⟩ := p.exists_firstFailure broken.2
        by_cases upTo : p.positionOf job ≤ n
        · exact absurd (scheduled.upTo n broken.1 first job hjob eligible upTo) unbroken
        · exact ⟨_, scheduled.beyond n broken.1 first job hjob eligible (Int.not_le.mp upTo)⟩
      · exact absurd (scheduled.unbroken (fun fast r hr fails => broken ⟨fast, r, hr, fails⟩) job hjob
          eligible) unbroken

/-- The results of the jobs that ran are those of the report that are not of skipped jobs. -/
theorem executed_iff (sound : p.Sound) (scheduled : p.Scheduled e failFast ran report) (x : JobResult) :
    (x ∈ report.jobs ∧ x.status ≠ .skipped) ↔ ∃ r ∈ ran, r.2 = x := by
  constructor
  · rintro ⟨hx, status⟩
    have nodup : (report.jobs.map (·.name)).Nodup := scheduled.complete.nodup_iff.mpr sound.jobs
    have own : report.result? x.name = some x :=
      find?_eq_some_of_unique hx (by simp) fun y hy same =>
        List.inj_on_of_nodup_map nodup hy hx (by simpa using same)
    obtain ⟨job, hjob, name⟩ := List.mem_map.mp (scheduled.complete.mem_iff.mp (List.mem_map_of_mem hx))
    rw [← name] at own
    by_cases ran' : ∃ r ∈ ran, r.1 = job
    · obtain ⟨r, hr, rfl⟩ := ran'
      exact ⟨r, hr, Option.some.inj ((scheduled.concluded r hr).2.symm.trans own)⟩
    · obtain ⟨reason, skipped⟩ := scheduled.skips hjob fun r hr same => ran' ⟨r, hr, same⟩
      cases skipped.reported.symm.trans own
      exact absurd rfl status
  · rintro ⟨r, hr, rfl⟩
    obtain ⟨concludes, reported⟩ := scheduled.concluded r hr
    refine ⟨List.mem_of_find?_eq_some reported, ?_⟩
    rcases concludes.terminal with h | h <;> simp [h]

theorem eligible (scheduled : p.Scheduled e failFast ran report) {r : Executed} (hr : r ∈ ran) :
    r.1.isEligible e = true := by
  by_contra h
  exact (scheduled.ineligible r.1 (scheduled.own r hr) (Bool.eq_false_iff.mpr h)).idle r hr rfl

/-- The failures for good of a run that fails fast are of one stage. -/
theorem one_stage (sound : p.Sound) (scheduled : p.Scheduled e failFast ran report)
    (fast : failFast = true) :
    ∀ r ∈ ran, ∀ r' ∈ ran, r.Fails → r'.Fails → r.1.stage = r'.1.stage := by
  intro r hr r' hr' fails fails'
  obtain ⟨n, first⟩ := p.exists_firstFailure ⟨r, hr, fails⟩
  have placed : ∀ x ∈ ran, x.Fails → p.positionOf x.1 = n := by
    intro x hx failed
    have behind : ¬n < p.positionOf x.1 := fun lt =>
      (scheduled.beyond n fast first x.1 (scheduled.own x hx) (scheduled.eligible hx) lt).idle x hx rfl
    have := first.first x hx failed
    omega
  exact sound.stage_of_position (scheduled.own r hr) (scheduled.own r' hr')
    ((placed r hr fails).trans (placed r' hr' fails').symm)

end Scheduled

end Pipeline

/-- How the exit code of a report comes about from the jobs that ran. -/
structure RunReport.ExitsBy (report : RunReport) (failFast : Bool) (jobs : List (JobRun σ)) : Prop where
  /-- The report tells the results of these jobs, and skips the others. -/
  executed : ∀ x, (x ∈ report.jobs ∧ x.status ≠ .skipped) ↔ ∃ r ∈ jobs, r.result = x
  zero : report.exitCode = 0 ↔ ∀ r ∈ jobs, ¬r.executed.Fails
  succeeded : report.succeeded = true ↔ ∀ r ∈ jobs, ¬r.executed.Fails
  one : report.exitCode = 1 ↔ ∃ r ∈ jobs, r.executed.Fails ∧ r.EndsOn .script
  two : report.exitCode = 2 ↔ (¬∃ r ∈ jobs, r.executed.Fails ∧ r.EndsOn .script) ∧
    ∃ r ∈ jobs, r.executed.Fails ∧ r.EndsOn .setup
  three : report.exitCode = 3 ↔ (∃ r ∈ jobs, r.executed.Fails) ∧
    (¬∃ r ∈ jobs, r.executed.Fails ∧ r.EndsOn .script) ∧
      ¬∃ r ∈ jobs, r.executed.Fails ∧ r.EndsOn .setup
  /-- Results of skipped jobs and of jobs that may fail can be left out. -/
  excused : ∀ kept : JobResult → Bool,
    (∀ x ∈ report.jobs, kept x = false → x.status = .skipped ∨ x.allowFailure = true) →
      RunReport.exitCode ⟨report.jobs.filter kept⟩ = report.exitCode
  one_stage : failFast = true → ∀ r ∈ jobs, ∀ r' ∈ jobs, r.executed.Fails → r'.executed.Fails →
    r.job.stage = r'.job.stage

namespace RunCall

variable {call : RunCall σ}

/-- Neither the runner nor a store that is given ends in an error that jobs declare. -/
structure Undeclared (call : RunCall σ) : Prop where
  runner : ∀ line environment place, (call.options.runner line environment place).Undeclared
  store : ∀ store, call.options.store = some store → store.Undeclared

theorem Undeclared.setting_ok (undeclared : call.Undeclared) {w w' : World σ} {g : JobSetting σ}
    (h : call.setting.run.run w = (.ok g, w')) : g.Undeclared := by
  unfold setting RunOptions.setting at h
  obtain ⟨project, _, -, h⟩ := run_ok_of_bind_ok h
  extract_lets standard rest at h
  have last : ∀ store w, (rest store).run.run w = (.ok g, w') → store.Undeclared → g.Undeclared := by
    intro store w h own
    obtain ⟨cacheRoot, _, -, h⟩ := run_ok_of_bind_ok h
    cases h
    exact ⟨undeclared.runner, own⟩
  split at h
  · rename_i store given
    exact last store _ h (undeclared.store store given)
  · obtain ⟨store, _, opened, h⟩ := run_ok_of_bind_ok h
    obtain ⟨root, _, -, opened⟩ := run_ok_of_bind_ok opened
    obtain ⟨_, _, -, opened⟩ := run_ok_of_bind_ok opened
    cases opened
    exact last _ _ h (DirectoryStore.undeclared root)

theorem exitsBy {g : JobSetting σ} {s s' : Session σ} {jobs : List (JobRun σ)} {report : RunReport}
    (sound : call.pipeline.Sound) (undeclared : g.Undeclared) (chain : JobChain g s jobs s')
    (scheduled : call.pipeline.Scheduled call.event call.options.failFast (jobs.map JobRun.executed)
      report) :
    report.ExitsBy call.options.failFast jobs := by
  have executed : ∀ x, (x ∈ report.jobs ∧ x.status ≠ .skipped) ↔ ∃ r ∈ jobs, r.result = x := by
    intro x
    rw [scheduled.executed_iff sound x]
    simp [JobRun.executed]
  have blocks : ∀ r ∈ jobs, r.result.isBlocking = true ↔ r.executed.Fails := fun r hr =>
    (scheduled.concluded _ (List.mem_map_of_mem hr)).1.isBlocking_iff
  have blocking : ∀ kind : JobResult → Prop, (∃ x ∈ report.jobs, x.isBlocking = true ∧ kind x) ↔
      ∃ r ∈ jobs, r.executed.Fails ∧ kind r.result := by
    intro kind
    constructor
    · rintro ⟨x, hx, isBlocking, own⟩
      have failed : x.status ≠ .skipped := by
        intro skipped
        simp [JobResult.isBlocking, skipped] at isBlocking
      obtain ⟨r, hr, rfl⟩ := (executed x).mp ⟨hx, failed⟩
      exact ⟨r, hr, (blocks r hr).mp isBlocking, own⟩
    · rintro ⟨r, hr, fails, own⟩
      exact ⟨r.result, ((executed _).mpr ⟨r, hr, rfl⟩).1, (blocks r hr).mpr fails, own⟩
  have ended : ∀ phase : Phase, phase ≠ .command → (some phase.kind ∈ report.blockingKinds ↔
      ∃ r ∈ jobs, r.executed.Fails ∧ r.EndsOn phase) := by
    intro phase listed
    rw [report.mem_blockingKinds, blocking]
    refine exists_congr fun r => and_congr_right fun hr => and_congr_right fun fails => ?_
    rw [JobRun.endsOn_iff (chain.setting_eq r hr ▸ undeclared) fails.1 listed]
  have none : (∀ x ∈ report.jobs, x.isBlocking = false) ↔ ∀ r ∈ jobs, ¬r.executed.Fails := by
    have some_blocks := not_congr (blocking fun _ => True)
    simpa using some_blocks
  obtain ⟨zero, one, two, three⟩ := report.exitCode_cases
  have script := ended .script (by simp)
  have setup := ended .setup (by simp)
  have fails : report.blockingKinds ≠ [] ↔ ∃ r ∈ jobs, r.executed.Fails := by
    rw [Ne, report.blockingKinds_eq_nil, none]
    simp
  exact {
    executed
    zero := zero.trans (report.blockingKinds_eq_nil.trans none)
    succeeded := report.succeeded_iff.trans none
    one := one.trans script
    two := two.trans (and_congr (not_congr script) setup)
    three := three.trans (and_congr fails (and_congr (not_congr script) (not_congr setup)))
    excused := fun kept dropped => report.exitCode_filter fun x hx isBlocking => by
      by_contra out
      rcases dropped x hx (Bool.eq_false_iff.mpr out) with h | h <;>
        simp [JobResult.isBlocking, h] at isBlocking
    one_stage := fun fast r hr r' hr' =>
      scheduled.one_stage sound fast _ (List.mem_map_of_mem hr) _ (List.mem_map_of_mem hr') }

/-- The exit code of a run, whatever the jobs do. -/
theorem run_exitCode (built : call.pipeline.IsBuilt) (undeclared : call.Undeclared) (s : Session σ) :
    match call.setting.run.run s.world with
    | (.error f, w) => call.perform.run.run s = (.error f, { s with world := w })
    | (.ok g, w) => ∃ jobs report s', call.perform.run.run s = (.ok report, s') ∧
        JobChain g { s with world := w } jobs s' ∧ report.ExitsBy call.options.failFast jobs := by
  obtain ⟨jobs, s', does⟩ := exists_does built s
  cases does with
  | stopped unset run =>
      rw [unset]
      exact run
  | ran set run chain scheduled =>
      rw [set]
      exact ⟨jobs, _, s', run, chain, exitsBy built.sound (undeclared.setting_ok set) chain scheduled⟩

/-- A run of two stages in which every command exits with one. -/
def failing : RunCall Unit where
  pipeline := Pipeline.twoStages
  event := ⟨"push", none, none⟩
  project := []
  options := Pipeline.failingOptions

theorem undeclared_failing : failing.Undeclared := by
  refine ⟨fun _ _ _ => .pure _, fun store given => ?_⟩
  cases given
  exact ⟨MemoryStore.undeclared.restore, MemoryStore.undeclared.save, nofun⟩

theorem run_exitCode_failing : failing.pipeline.IsBuilt ∧ failing.Undeclared ∧
    ∃ g jobs report s', failing.perform.run.run ⟨⟨{}, [], ()⟩, []⟩ = (.ok report, s') ∧
      JobChain g ⟨⟨{}, [], ()⟩, []⟩ jobs s' ∧ report.ExitsBy true jobs := by
  obtain ⟨g, set⟩ : ∃ g, failing.setting.run.run ⟨{}, [], ()⟩ = (.ok g, ⟨{}, [], ()⟩) :=
    Pipeline.setting_failingOptions _ _
  have run := run_exitCode Pipeline.isBuilt_twoStages undeclared_failing ⟨⟨{}, [], ()⟩, []⟩
  rw [set] at run
  exact ⟨Pipeline.isBuilt_twoStages, undeclared_failing, g, run⟩

end RunCall

end Conveyor
