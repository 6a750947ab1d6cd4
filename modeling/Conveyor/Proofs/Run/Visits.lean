import Conveyor.Proofs.Run.Calls
import Conveyor.Proofs.Run.Report

/-!
Runs of any pipelines, also of such as no definition gives. Whatever the pipeline is, jobs run one after the
other, and what a report tells of a job that was not skipped is the result of a job that ran. Between two
runs anything may happen to the files.
-/

namespace Conveyor

variable {σ : Type}

/-- Notes of a run are of skipped jobs and of jobs that ran. -/
def TellsOf (ran : List Executed) (notes : Results) : Prop :=
  ∀ n ∈ notes, n.2.status = .skipped ∨ ∃ r ∈ ran, r.2 = n.2

theorem Table.mem_of_get?_putAll {κ α : Type} [BEq κ] [LawfulBEq κ] {entries t : Table κ α} {key : κ}
    {a : α} (h : (t.putAll entries).get? key = some a) :
    (∃ e ∈ entries, e.2 = a) ∨ t.get? key = some a := by
  induction entries generalizing t with
  | nil => exact .inr h
  | cons e rest ih =>
      rcases ih (t := t.put e.1 e.2) h with ⟨found, hfound, same⟩ | before
      · exact .inl ⟨found, List.mem_cons_of_mem _ hfound, same⟩
      · rw [Table.get?_put] at before
        split at before
        · exact .inl ⟨e, List.mem_cons_self, Option.some.inj before⟩
        · exact .inr before

theorem skipJobs_tells (verdicts : Verdicts) (blocked : Bool) (results : Results) (jobs : List Job)
    (s : Session σ) : ∃ notes s', (skipJobs RunStep.tell verdicts blocked results jobs).run.run s =
      (.ok (results.putAll notes), s') ∧ s.Idle s' ∧ TellsOf [] notes := by
  induction jobs generalizing results s with
  | nil => exact ⟨[], s, rfl, .refl s, by simp [TellsOf]⟩
  | cons job rest ih =>
      unfold skipJobs
      split
      · rename_i told reason _
        obtain ⟨notes, s', run, idle, tell⟩ := ih (results.put job.name (skippedResult job reason))
          (s.tell (.jobSkipped job.name told))
        have passing : (Notice.jobSkipped job.name told).IsPassing := trivial
        exact ⟨(job.name, skippedResult job reason) :: notes, s', run, .trans (.tell s passing) idle,
          List.forall_mem_cons.mpr ⟨.inl rfl, tell⟩⟩
      · exact ih results s

theorem runStages_tells (g : JobSetting σ) (schedule : Schedule) (failFast : Bool) (verdicts : Verdicts)
    (blocked : Bool) (results : Results) (groups : List (Stage × List Job)) (s : Session σ) :
    ∃ ran notes s', (runStages RunStep.tell g schedule failFast verdicts blocked results groups).run.run s =
      (.ok (results.putAll notes), s') ∧ g.Runs s ran s' ∧ TellsOf ran notes := by
  induction groups generalizing blocked results s with
  | nil => exact ⟨[], [], s, rfl, .none (.refl s), by simp [TellsOf]⟩
  | cons group groups ih =>
      obtain ⟨stage, jobs⟩ := group
      obtain ⟨skipped, s₁, hskip, idle, tell⟩ := skipJobs_tells verdicts blocked results jobs s
      rw [runStages, run_bind_ok hskip]
      dsimp only
      generalize jobs.filter (fun job => (skipReason? verdicts blocked job).isNone) = runnable
      by_cases none : runnable.isEmpty = true
      · rw [if_pos none]
        obtain ⟨ran, notes, s', run, runs, told⟩ := ih blocked (results.putAll skipped) s₁
        refine ⟨ran, skipped ++ notes, s', by rw [run, Table.putAll_append], runs.idle_left idle, ?_⟩
        exact List.forall_mem_append.mpr ⟨fun n hn => (tell n hn).imp_right (by simp), told⟩
      · rw [if_neg none]
        let told := s₁.tell (.stage stage.name (runnable.map (·.name)))
        have passing : (Notice.stage stage.name (runnable.map (·.name))).IsPassing := trivial
        obtain ⟨first, s₂, hjobs, runs, -⟩ := runJobs_run tellsAround_tell g (schedule.order stage runnable)
          (results.putAll skipped) told
        obtain ⟨rest, notes, s', run, later, told'⟩ := ih
          (blocked || (failFast && anyBlocking ((results.putAll skipped).putAll (first.map Executed.note))
            runnable))
          ((results.putAll skipped).putAll (first.map Executed.note)) s₂
        refine ⟨first ++ rest, skipped ++ (first.map Executed.note ++ notes), s', ?_,
          (runs.append later).idle_left (idle.trans (.tell s₁ passing)), ?_⟩
        · rw [Table.putAll_append, Table.putAll_append]
          have tells := tellsAround_tell (.stage stage.name (runnable.map (·.name))) trivial s₁
          exact (run_bind_ok tells).trans ((run_bind_ok hjobs).trans run)
        · refine List.forall_mem_append.mpr ⟨fun n hn => ?_, List.forall_mem_append.mpr ⟨?_, ?_⟩⟩
          · exact (tell n hn).imp_right (by simp)
          · intro n hn
            obtain ⟨r, hr, rfl⟩ := List.mem_map.mp hn
            exact .inr ⟨r, List.mem_append_left _ hr, rfl⟩
          · intro n hn
            refine (told' n hn).imp_right ?_
            rintro ⟨r, hr, same⟩
            exact ⟨r, List.mem_append_right _ hr, same⟩

theorem collect_tells {ran : List Executed} {notes : Results} (tells : TellsOf ran notes) {jobs : List Job}
    {report : RunReport} (collected : collect (Table.putAll [] notes) jobs = .ok report) :
    ∀ x ∈ report.jobs, x.status = .skipped ∨ ∃ r ∈ ran, r.2 = x := by
  obtain ⟨found, noted, collected⟩ := ok_of_bind_ok collected
  cases collected
  intro x hx
  obtain ⟨job, -, answer⟩ := mem_of_mapM_eq_ok noted x hx
  split at answer
  · rename_i r there
    cases answer
    rcases Table.mem_of_get?_putAll there with ⟨n, hn, rfl⟩ | nothing
    · exact tells n hn
    · cases nothing
  · cases answer

namespace RunCall

variable {call : RunCall σ}

/-- What a run of any pipeline does: it has no setting to run jobs in, or jobs run in the setting. -/
inductive Acts (call : RunCall σ) (s : Session σ) :
    Except Fault RunReport → List (JobRun σ) → Session σ → Prop
  | unset {f : Fault} {w : World σ} (unset : call.setting.run.run s.world = (.error f, w)) :
      Acts call s (.error f) [] { s with world := w }
  | set {g : JobSetting σ} {w : World σ} {answer : Except Fault RunReport} {jobs : List (JobRun σ)}
      {s' : Session σ} (set : call.setting.run.run s.world = (.ok g, w))
      (chain : JobChain g { s with world := w } jobs s')
      (told : ∀ report, answer = .ok report → ∀ x ∈ report.jobs, x.status ≠ .skipped →
        ∃ r ∈ jobs, r.result = x) : Acts call s answer jobs s'

theorem exists_acts (call : RunCall σ) (s : Session σ) :
    ∃ answer jobs s', call.perform.run.run s = (answer, s') ∧ call.Acts s answer jobs s' := by
  unfold perform Pipeline.run Pipeline.runPrinted
  match set : call.setting.run.run s.world with
  | (.error f, w) =>
      exact ⟨_, [], _, run_bind_error (RunStep.run_ofAction set), .unset set⟩
  | (.ok g, w) =>
      have idle : JobChain g { s with world := w } [] { s with world := w } := .none (.refl _)
      have begun := RunStep.run_ofAction (s := s) set
      unfold setting at begun
      rw [run_bind_ok begun]
      cases needStage (call.pipeline.plan call.event) with
      | error f =>
          rw [run_bind_error (RunStep.run_ofExcept _ _)]
          exact ⟨_, [], _, rfl, .set set idle nofun⟩
      | ok plan =>
          rw [run_bind_ok (RunStep.run_ofExcept _ _)]
          cases needStage call.pipeline.jobsByStage with
          | error f =>
              rw [run_bind_error (RunStep.run_ofExcept _ _)]
              exact ⟨_, [], _, rfl, .set set idle nofun⟩
          | ok groups =>
              rw [run_bind_ok (RunStep.run_ofExcept _ _)]
              obtain ⟨ran, notes, s', stages, runs, tells⟩ := runStages_tells g call.options.schedule
                call.options.failFast (.ofPlan plan) false [] groups { s with world := w }
              obtain ⟨jobs, chain, rfl⟩ := runs.chain
              rw [run_bind_ok stages]
              cases needStage call.pipeline.jobsInOrder with
              | error f =>
                  rw [run_bind_error (RunStep.run_ofExcept _ _)]
                  exact ⟨_, jobs, s', rfl, .set set chain nofun⟩
              | ok ordered =>
                  rw [run_bind_ok (RunStep.run_ofExcept _ _), RunStep.run_ofExcept]
                  refine ⟨_, jobs, s', rfl, .set set chain fun report collected x hx status => ?_⟩
                  obtain ⟨_, hr, same⟩ := (collect_tells tells collected x hx).resolve_left status
                  obtain ⟨r, own, rfl⟩ := List.mem_map.mp hr
                  exact ⟨r, own, same⟩

end RunCall

/-- A run, and what happens to the files and to all but the stores before it. -/
structure Visit (σ : Type) where
  change : World σ → FileTree × σ
  call : RunCall σ

/-- The session that the run of a visit starts from. -/
def Visit.arrive (v : Visit σ) (s : Session σ) : Session σ :=
  { s with world := { s.world with files := (v.change s.world).1, own := (v.change s.world).2 } }

/-- Visits one after the other, with the answer of each run and the jobs that ran in it. -/
inductive Visits : List (Visit σ) → Session σ → List (Except Fault RunReport × List (JobRun σ)) →
    Session σ → Prop
  | none (s : Session σ) : Visits [] s [] s
  | next {v : Visit σ} {vs : List (Visit σ)} {s s₁ s' : Session σ} {answer : Except Fault RunReport}
      {jobs : List (JobRun σ)} {rest : List (Except Fault RunReport × List (JobRun σ))}
      (run : v.call.perform.run.run (v.arrive s) = (answer, s₁))
      (acts : v.call.Acts (v.arrive s) answer jobs s₁)
      (later : Visits vs s₁ rest s') : Visits (v :: vs) s ((answer, jobs) :: rest) s'

theorem Visits.exists (visits : List (Visit σ)) (s : Session σ) : ∃ trace s', Visits visits s trace s' := by
  induction visits generalizing s with
  | nil => exact ⟨[], s, .none s⟩
  | cons v vs ih =>
      obtain ⟨answer, jobs, s₁, run, acts⟩ := v.call.exists_acts (v.arrive s)
      obtain ⟨rest, s', later⟩ := ih s₁
      exact ⟨_, s', .next run acts later⟩

/-- What the reports tell of jobs that were not skipped are the results of the jobs that ran. -/
theorem Visits.told {visits : List (Visit σ)} {s s' : Session σ}
    {trace : List (Except Fault RunReport × List (JobRun σ))} (performed : Visits visits s trace s') :
    ∀ run ∈ trace, ∀ report, run.1 = .ok report → ∀ x ∈ report.jobs, x.status ≠ .skipped →
      ∃ r ∈ run.2, r.result = x := by
  induction performed with
  | none => simp
  | next _ acts _ ih =>
      refine List.forall_mem_cons.mpr ⟨fun report answered => ?_, ih⟩
      cases acts with
      | unset => cases answered
      | set _ _ told => exact told report answered

end Conveyor
