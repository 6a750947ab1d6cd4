import Conveyor.Proofs.Job.Conclusion
import Conveyor.Proofs.Table
import Conveyor.Run
import Mathlib.Data.List.Perm.Basic

/-!
What the loop over the stages does. It is described without sessions first: which jobs each stage runs,
given whether a job has failed for good before it, and which results are noted. The loop does just
that, and the world changes in it only where a job runs.
-/

namespace Conveyor

variable {σ : Type}

/-- A job that ran, with its result. -/
abbrev Executed := Job × JobResult

/-- The result of a job under its name. -/
def Executed.note (r : Executed) : String × JobResult := (r.1.name, r.2)

/-- Notices of stages and of jobs that do not run. -/
def Notice.IsPassing : Notice → Prop
  | .stage _ _ | .jobSkipped _ _ => True
  | _ => False

/-- Nothing happens between two sessions, but stages and skipped jobs may be told. -/
structure Session.Idle (s s' : Session σ) : Prop where
  world : s'.world = s.world
  told : ∃ notices, s'.notices = s.notices ++ notices ∧ ∀ n ∈ notices, n.IsPassing

namespace Session.Idle

theorem refl (s : Session σ) : s.Idle s := ⟨rfl, [], by simp, by simp⟩

theorem tell (s : Session σ) {n : Notice} (hn : n.IsPassing) : s.Idle (s.tell n) :=
  ⟨rfl, [n], rfl, by simpa using hn⟩

theorem trans {s t u : Session σ} (first : s.Idle t) (second : t.Idle u) : s.Idle u := by
  obtain ⟨ns, hns, passing⟩ := first.told
  obtain ⟨ms, hms, passing'⟩ := second.told
  refine ⟨second.world.trans first.world, ns ++ ms, by rw [hms, hns, List.append_assoc], ?_⟩
  intro n hn
  rcases List.mem_append.mp hn with h | h
  · exact passing n h
  · exact passing' n h

end Session.Idle

/-- Jobs run one after the other, each from its start to its result, and nothing happens in between. -/
inductive InTurn (work : Job → StateM (Session σ) JobResult) :
    Session σ → List Executed → Session σ → Prop
  | none {s s'} (idle : s.Idle s') : InTurn work s [] s'
  | job {s s₁ s₂ s' job result rest} (idle : s.Idle s₁) (run : (work job).run s₁ = (result, s₂))
      (later : InTurn work s₂ rest s') : InTurn work s ((job, result) :: rest) s'

namespace InTurn

variable {work : Job → StateM (Session σ) JobResult} {s t u : Session σ} {first second : List Executed}

theorem idle_left (idle : s.Idle t) (runs : InTurn work t first u) : InTurn work s first u := by
  cases runs with
  | none more => exact .none (idle.trans more)
  | job more run later => exact .job (idle.trans more) run later

theorem append (before : InTurn work s first t) (after : InTurn work t second u) :
    InTurn work s (first ++ second) u := by
  induction before with
  | none idle => exact after.idle_left idle
  | job idle run _ ih => exact .job idle run (ih after)

end InTurn

namespace JobSetting

abbrev Runs (g : JobSetting σ) : Session σ → List Executed → Session σ → Prop := InTurn g.runIsolated

/-- A job that is told by a printer, up to its end, which is told in any case. -/
def runIsolatedBy (g : JobSetting σ) (printer : Printer σ) (job : Job) : StateM (Session σ) JobResult :=
  isolate job (g.runJobTelling printer.inJob job)

end JobSetting

/-- Notices of what happens around jobs: of stages, of jobs that do not run, and of jobs that fail. -/
def Notice.IsAround : Notice → Prop
  | .stage _ _ | .jobSkipped _ _ | .jobFailed _ _ _ _ => True
  | _ => False

/-- A printer that tells of stages, of jobs that do not run, and of jobs that fail. With any other notice it
may fail, or do what it likes. -/
def Printer.TellsAround (printer : Printer σ) : Prop :=
  ∀ n, n.IsAround → ∀ s, (printer n).run.run s = (.ok (), s.tell n)

theorem tellsAround_tell : Printer.TellsAround (RunStep.tell : Printer σ) := fun _ _ _ => rfl

/-- Where it can be told that a job has failed, the job has a result. -/
theorem Printer.TellsAround.run_runPrinted {printer : Printer σ} (tells : printer.TellsAround)
    (g : JobSetting σ) (job : Job) (s : Session σ) : (g.runPrinted printer job).run.run s =
      (.ok ((g.runIsolatedBy printer job).run s).1, ((g.runIsolatedBy printer job).run s).2) := by
  rw [JobSetting.runIsolatedBy, JobSetting.run_isolate, JobSetting.runPrinted]
  match ran : (g.runJobTelling printer.inJob job).run.run s with
  | (.ok r, s₁) => exact run_bind_ok (RunStep.run_ofState ran)
  | (.error f, s₁) =>
      refine (run_bind_ok (RunStep.run_ofState ran)).trans ?_
      exact run_bind_ok (tells (.jobFailed job.name f.message f.exitCode f.output) trivial s₁)

/-- The note on a job that an event does not start or that a failure blocks. -/
def skipNote? (e : Event) (blocked : Bool) (job : Job) : Option (String × JobResult) :=
  if !job.isEligible e then some (job.name, skippedResult job ("trigger: " ++ job.planReason e))
  else if blocked then some (job.name, skippedResult job blockedReason)
  else none

/-- The jobs of a stage that run. -/
def startedJobs (e : Event) (blocked : Bool) (jobs : List Job) : List Job :=
  jobs.filter fun job => job.isEligible e && !blocked

/-- What stages do: the jobs that run and the results that are noted, from whether a job has failed
for good before them. -/
inductive Passes (e : Event) (failFast : Bool) :
    Bool → List (Stage × List Job) → List Executed → Results → Prop
  | done {blocked} : Passes e failFast blocked [] [] []
  | stage {blocked stage jobs groups first rest notes}
      (order : (first.map (·.1)).Perm (startedJobs e blocked jobs))
      (concluded : ∀ r ∈ first, r.2.Concludes r.1)
      (later : Passes e failFast (blocked || (failFast && first.any (·.2.isBlocking))) groups rest
        notes) :
      Passes e failFast blocked ((stage, jobs) :: groups) (first ++ rest)
        (jobs.filterMap (skipNote? e blocked) ++ first.map Executed.note ++ notes)

/-- The verdicts on some jobs are those of an event. -/
def Verdicts.Decide (verdicts : Verdicts) (e : Event) (jobs : List Job) : Prop :=
  ∀ job ∈ jobs, verdicts.get? job.name = some ⟨job, job.isEligible e, job.planReason e⟩

section Skipping

variable {verdicts : Verdicts} {e : Event} {jobs : List Job} {job : Job}

theorem skipReason?_ineligible (decide : verdicts.Decide e jobs) (hjob : job ∈ jobs)
    (h : job.isEligible e = false) (blocked : Bool) :
    skipReason? verdicts blocked job = some (job.planReason e, "trigger: " ++ job.planReason e) := by
  simp [skipReason?, decide job hjob, h]

theorem skipReason?_eligible (decide : verdicts.Decide e jobs) (hjob : job ∈ jobs)
    (h : job.isEligible e = true) (blocked : Bool) :
    skipReason? verdicts blocked job =
      if blocked then some (blockedReason, blockedReason) else none := by
  simp [skipReason?, decide job hjob, h]

/-- The jobs that are not skipped are those that start. -/
theorem filter_skipReason? (decide : verdicts.Decide e jobs) (blocked : Bool) :
    jobs.filter (fun job => (skipReason? verdicts blocked job).isNone) = startedJobs e blocked jobs := by
  apply List.filter_congr
  intro job hjob
  cases h : job.isEligible e with
  | false => simp [skipReason?_ineligible decide hjob h]
  | true => cases blocked <;> simp [skipReason?_eligible decide hjob h]

theorem skipJobs_run {printer : Printer σ} (tells : printer.TellsAround) (decide : verdicts.Decide e jobs)
    (blocked : Bool) (results : Results) (s : Session σ) :
    ∃ s', (skipJobs printer verdicts blocked results jobs).run.run s =
        (.ok (results.putAll (jobs.filterMap (skipNote? e blocked))), s') ∧ s.Idle s' := by
  induction jobs generalizing results s with
  | nil => exact ⟨s, rfl, .refl s⟩
  | cons job rest ih =>
      have decide' : verdicts.Decide e rest := fun j hj => decide j (List.mem_cons_of_mem job hj)
      have skipped : ∀ told reason, skipReason? verdicts blocked job = some (told, reason) →
          skipNote? e blocked job = some (job.name, skippedResult job reason) →
          ∃ s', (skipJobs printer verdicts blocked results (job :: rest)).run.run s =
            (.ok (results.putAll ((job :: rest).filterMap (skipNote? e blocked))), s') ∧ s.Idle s' := by
        intro told reason hreason hnote
        obtain ⟨s', hrun, idle⟩ := ih decide' (results.put job.name (skippedResult job reason))
          (s.tell (.jobSkipped job.name told))
        have hn : (Notice.jobSkipped job.name told).IsPassing := trivial
        rw [skipJobs, hreason, List.filterMap_cons_some hnote]
        exact ⟨s', (run_bind_ok (tells (.jobSkipped job.name told) trivial s)).trans hrun,
          .trans (.tell s hn) idle⟩
      cases h : job.isEligible e with
      | false =>
          exact skipped _ _ (skipReason?_ineligible decide List.mem_cons_self h blocked)
            (by simp [skipNote?, h])
      | true =>
          have reason := skipReason?_eligible decide List.mem_cons_self h blocked
          cases blocked with
          | true => exact skipped _ _ reason (by simp [skipNote?, h])
          | false =>
              have hreason : skipReason? verdicts false job = none := reason
              rw [skipJobs, hreason, List.filterMap_cons_none (by simp [skipNote?, h])]
              exact ih decide' results s

end Skipping

theorem runJobs_run {printer : Printer σ} (tells : printer.TellsAround) (g : JobSetting σ) (jobs : List Job)
    (results : Results) (s : Session σ) :
    ∃ ran s', (runJobs printer g results jobs).run.run s =
        (.ok (results.putAll (ran.map Executed.note)), s') ∧
      InTurn (g.runIsolatedBy printer) s ran s' ∧ ran.map (·.1) = jobs ∧ ∀ r ∈ ran, r.2.Concludes r.1 := by
  induction jobs generalizing results s with
  | nil => exact ⟨[], s, rfl, .none (.refl s), rfl, by simp⟩
  | cons job rest ih =>
      have concludes : ((g.runIsolatedBy printer job).run s).1.Concludes job :=
        g.isolate_concludes printer.inJob job s
      have ends := RunStep.run_ofState (tells.run_runPrinted g job s)
      obtain ⟨ran, s', hrun, runs, jobs, concluded⟩ := ih
        (results.put job.name ((g.runIsolatedBy printer job).run s).1)
        ((g.runIsolatedBy printer job).run s).2
      refine ⟨(job, ((g.runIsolatedBy printer job).run s).1) :: ran, s', ?_,
        .job (.refl s) rfl runs, ?_, ?_⟩
      · exact (run_bind_ok ends).trans hrun
      · rw [List.map_cons, jobs]
      · exact List.forall_mem_cons.mpr ⟨concludes, concluded⟩

theorem nodup_names_startedJobs {jobs : List Job} (nodup : (jobs.map (·.name)).Nodup) (e : Event)
    (blocked : Bool) : ((startedJobs e blocked jobs).map (·.name)).Nodup :=
  (List.filter_sublist.map _).nodup nodup

theorem nodup_notes {ran : List Executed} {jobs : List Job} (order : (ran.map (·.1)).Perm jobs)
    (nodup : (jobs.map (·.name)).Nodup) : ((ran.map Executed.note).map (·.1)).Nodup := by
  have names := (order.map (·.name)).symm.nodup nodup
  rwa [List.map_map] at names ⊢

/-- A failure for good is seen in the results that were noted last. -/
theorem anyBlocking_putAll {ran : List Executed} {jobs : List Job}
    (order : (ran.map (·.1)).Perm jobs) (nodup : (jobs.map (·.name)).Nodup) (results : Results) :
    anyBlocking (results.putAll (ran.map Executed.note)) jobs = ran.any (·.2.isBlocking) := by
  have noted : ∀ r ∈ ran, (results.putAll (ran.map Executed.note)).get? r.1.name = some r.2 :=
    fun r hr => Table.get?_putAll_of_mem (nodup_notes order nodup) (List.mem_map_of_mem hr) results
  rw [Bool.eq_iff_iff, anyBlocking, List.any_eq_true, List.any_eq_true]
  constructor
  · rintro ⟨job, hjob, hblocking⟩
    obtain ⟨r, hr, rfl⟩ := List.mem_map.mp (order.mem_iff.mpr hjob)
    rw [noted r hr, Option.any_some] at hblocking
    exact ⟨r, hr, hblocking⟩
  · rintro ⟨r, hr, hblocking⟩
    refine ⟨r.1, order.mem_iff.mp (List.mem_map_of_mem hr), ?_⟩
    rwa [noted r hr, Option.any_some]

section Loop

variable {printer : Printer σ} (tells : printer.TellsAround) (g : JobSetting σ) (schedule : Schedule)
  (failFast : Bool) {verdicts : Verdicts} {e : Event}
include tells

/-- One stage: the jobs that start run in some order, and the loop goes on with what they left. -/
theorem runStages_cons (stage : Stage) {jobs : List Job} (decide : verdicts.Decide e jobs)
    (names : (jobs.map (·.name)).Nodup) (blocked : Bool) (results : Results)
    (groups : List (Stage × List Job)) (s : Session σ) :
    ∃ first s', InTurn (g.runIsolatedBy printer) s first s' ∧
      (first.map (·.1)).Perm (startedJobs e blocked jobs) ∧ (∀ r ∈ first, r.2.Concludes r.1) ∧
      (runStages printer g schedule failFast verdicts blocked results ((stage, jobs) :: groups)).run.run s =
        (runStages printer g schedule failFast verdicts
          (blocked || (failFast && first.any (·.2.isBlocking)))
          (results.putAll (jobs.filterMap (skipNote? e blocked) ++ first.map Executed.note))
          groups).run.run s' := by
  obtain ⟨s₁, hskip, idle⟩ := skipJobs_run tells decide blocked results s
  rw [runStages, run_bind_ok hskip]
  simp only [filter_skipReason? decide]
  by_cases hempty : (startedJobs e blocked jobs).isEmpty
  · have none : startedJobs e blocked jobs = [] := List.isEmpty_iff.mp hempty
    refine ⟨[], s₁, .none idle, by simp [none], by simp, ?_⟩
    rw [if_pos hempty]
    simp
  · let notice := Notice.stage stage.name ((startedJobs e blocked jobs).map (·.name))
    obtain ⟨first, s₂, hjobs, runs, order, concluded⟩ := runJobs_run tells g
      (schedule.order stage (startedJobs e blocked jobs))
      (results.putAll (jobs.filterMap (skipNote? e blocked))) (s₁.tell notice)
    have passing : notice.IsPassing := trivial
    have started : (first.map (·.1)).Perm (startedJobs e blocked jobs) :=
      order ▸ schedule.perm stage _
    refine ⟨first, s₂, runs.idle_left (idle.trans (.tell s₁ passing)), started, concluded, ?_⟩
    rw [if_neg hempty, Table.putAll_append,
      ← anyBlocking_putAll started (nodup_names_startedJobs names e blocked)
        (results.putAll (jobs.filterMap (skipNote? e blocked)))]
    exact (run_bind_ok (tells notice trivial s₁)).trans (run_bind_ok hjobs)

/-- The loop over the stages does what is described. -/
theorem runStages_run {groups : List (Stage × List Job)}
    (decide : ∀ group ∈ groups, verdicts.Decide e group.2)
    (names : ∀ group ∈ groups, (group.2.map (·.name)).Nodup) (blocked : Bool) (results : Results)
    (s : Session σ) :
    ∃ ran notes s', (runStages printer g schedule failFast verdicts blocked results groups).run.run s =
        (.ok (results.putAll notes), s') ∧
      InTurn (g.runIsolatedBy printer) s ran s' ∧ Passes e failFast blocked groups ran notes := by
  induction groups generalizing blocked results s with
  | nil => exact ⟨[], [], s, rfl, .none (.refl s), .done⟩
  | cons group groups ih =>
      obtain ⟨stage, jobs⟩ := group
      obtain ⟨first, s₁, runs, started, concluded, hstage⟩ := runStages_cons tells g schedule failFast stage
        (decide (stage, jobs) List.mem_cons_self) (names (stage, jobs) List.mem_cons_self) blocked
        results groups s
      obtain ⟨rest, notes, s', hrun, later, passes⟩ := ih
        (fun group h => decide group (List.mem_cons_of_mem _ h))
        (fun group h => names group (List.mem_cons_of_mem _ h))
        (blocked || (failFast && first.any (·.2.isBlocking)))
        (results.putAll (jobs.filterMap (skipNote? e blocked) ++ first.map Executed.note)) s₁
      refine ⟨_, _, s', ?_, runs.append later, .stage started concluded passes⟩
      rw [hstage, hrun, Table.putAll_append _ (_ ++ _)]

end Loop

end Conveyor
