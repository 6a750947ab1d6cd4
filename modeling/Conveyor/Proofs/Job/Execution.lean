import Conveyor.Proofs.Job.Preparation
import Conveyor.Proofs.Job.Steps

/-!
The commands of a job, run one after the other. They run up to the first that exits with another status
than zero, or that its runner does not answer; what comes after it is not run, in either phase.
-/

namespace Conveyor

variable {σ : Type}

/-- A command as a runner is asked to run it. -/
structure CommandRequest where
  command : String
  environment : Environment
  place : Location
  deriving DecidableEq, Repr

/-- A log in the world, to which a runner adds each command that it is asked to run. -/
def Runner.Logs (run : Runner σ) (log : World σ → List CommandRequest) : Prop :=
  ∀ command environment place w,
    log ((run command environment place).run.run w).2 = log w ++ [⟨command, environment, place⟩]

/-- Commands that are run one after the other and all exit with zero. -/
inductive AllPass (run : String → Action σ CommandResult) : World σ → List String → World σ → Prop
  | done (w : World σ) : AllPass run w [] w
  | next {w w' w'' : World σ} {command : String} {rest : List String} {r : CommandResult}
      (ran : (run command).run.run w = (.ok r, w')) (zero : r.exitCode = 0)
      (later : AllPass run w' rest w'') : AllPass run w (command :: rest) w''

/-- How commands end after those that passed: there are no more, or the next one does not pass. -/
inductive Halts (run : String → Action σ CommandResult) (w : World σ) :
    List String → Option (Except Fault CommandResult) → World σ → Prop
  | finished : Halts run w [] none w
  | stopped {w' : World σ} {command : String} {rest : List String} {answer : Except Fault CommandResult}
      (ran : (run command).run.run w = (answer, w')) (fails : ∀ r, answer = .ok r → r.exitCode ≠ 0) :
      Halts run w (command :: rest) (some answer) w'

section

variable {run : Runner σ} {record : World σ → List CommandRequest} {environment : Environment}
  {place : Location} {w w' : World σ} {commands : List String}

theorem AllPass.append {run : String → Action σ CommandResult} {w'' : World σ} {commands' : List String}
    (first : AllPass run w commands w') (second : AllPass run w' commands' w'') :
    AllPass run w (commands ++ commands') w'' := by
  induction first with
  | done => exact second
  | next ran zero _ ih => exact .next ran zero (ih second)

theorem AllPass.logged (logs : run.Logs record) (h : AllPass (run · environment place) w commands w') :
    record w' = record w ++ commands.map (⟨·, environment, place⟩) := by
  induction h with
  | done => simp
  | @next w w₁ _ command _ _ ran _ _ ih =>
      have added := logs command environment place w
      rw [ran] at added
      rw [ih, added, List.map_cons, List.append_assoc, List.singleton_append]

theorem Halts.logged {stop : Option (Except Fault CommandResult)} (logs : run.Logs record)
    (h : Halts (run · environment place) w commands stop w') :
    record w' = record w ++ (commands.take 1).map (⟨·, environment, place⟩) := by
  cases h with
  | finished => simp
  | @stopped _ command _ _ ran _ =>
      have added := logs command environment place w
      rw [ran] at added
      exact added

end

/-- The failure of a job whose command does not pass. -/
def stopFailure (job : String) (phase : Phase) : Except Fault CommandResult → JobFailure
  | .ok r => .error (.command phase (r.failure job))
  | .error f => .ofFault f

/-- The phase of a command by its position among all commands of a job. -/
def Job.phaseAt (job : Job) (position : Nat) : Phase :=
  if position < job.beforeScript.length then .setup else .script

theorem run_runPhase (run : String → Action σ CommandResult) (job : String) (phase : Phase)
    (commands : List String) (s : Session σ) :
    ∃ ran later between stop w', commands = ran ++ later ∧ AllPass run s.world ran between ∧
      Halts run between later stop w' ∧
      (runPhase (fun command => JobStep.ofAction (run command)) job phase commands).run.run s =
        ((stop.map (stopFailure job phase)).elim (.ok ()) .error, { s with world := w' }) := by
  induction commands generalizing s with
  | nil => exact ⟨[], [], s.world, none, s.world, rfl, .done _, .finished, rfl⟩
  | cons command rest ih =>
      rw [JobSetting.runPhase_cons]
      have answered := JobStep.run_ofAction (run command) s
      match ran : (run command).run.run s.world with
      | (.error f, w') =>
          rw [ran] at answered
          exact ⟨[], command :: rest, s.world, _, w', rfl, .done _, .stopped ran nofun,
            run_bind_error answered⟩
      | (.ok r, w') =>
          rw [ran] at answered
          rw [run_bind_ok answered]
          by_cases zero : r.exitCode = 0
          · have ok : r.isOk = true := decide_eq_true zero
            obtain ⟨made, later, between, stop, w'', rfl, passes, halts, result⟩ := ih { s with world := w' }
            rw [if_pos ok]
            exact ⟨command :: made, later, between, stop, w'', rfl, .next ran zero passes, halts, result⟩
          · have failed : ¬r.isOk = true := by simpa [CommandResult.isOk] using zero
            rw [if_neg failed]
            exact ⟨[], command :: rest, s.world, _, w', rfl, .done _,
              .stopped ran (fun _ h => by cases h; exact zero), rfl⟩

/-- The phases are run as one list of commands; only the failure tells them apart. -/
theorem run_runCommands (run : String → Action σ CommandResult) (job : Job) (s : Session σ) :
    ∃ ran later between stop w', job.beforeScript ++ job.script = ran ++ later ∧
      AllPass run s.world ran between ∧ Halts run between later stop w' ∧
      (runCommands (fun command => JobStep.ofAction (run command)) job).run.run s =
        ((stop.map (stopFailure job.name (job.phaseAt ran.length))).elim (.ok ()) .error,
          { s with world := w' }) := by
  obtain ⟨ran, later, between, stop, w', setup, passes, halts, result⟩ :=
    run_runPhase run job.name .setup job.beforeScript s
  unfold runCommands
  cases halts with
  | finished =>
      rw [List.append_nil] at setup
      obtain ⟨ran', later', between', stop', w', script, passes', halts', result'⟩ :=
        run_runPhase run job.name .script job.script { s with world := between }
      have phase : job.phaseAt (ran ++ ran').length = .script := by simp [Job.phaseAt, setup]
      refine ⟨ran ++ ran', later', between', stop', w', ?_, passes.append passes', halts', ?_⟩
      · rw [setup, script, List.append_assoc]
      · rw [run_bind_ok result, result', phase]
  | @stopped _ command rest answer asked fails =>
      have phase : job.phaseAt ran.length = .setup := by simp [Job.phaseAt, setup]
      refine ⟨ran, command :: rest ++ job.script, between, some answer, w', ?_, passes,
        .stopped asked fails, ?_⟩
      · rw [setup, List.append_assoc]
      · rw [run_bind_error result, phase]
        rfl

/-- After a workspace is prepared, the commands of both phases run in its project directory and with its
environment, up to the first that does not pass and each of them once. The failure of that command is the
failure of its phase. -/
theorem provision_stops_at_first_failure (job : Job) (base : Environment) (globals : Variables)
    (project : Location) (run : Runner σ) (s : Session σ) {place : Workspace} {t : FileTree}
    (prepared : job.prepare base globals project s.world.files = (.ok place, t)) :
    place.environment = base.merge [globals.layer, job.bindings.layer] ∧
    s.world.files.resolve project = .ok place.project ∧
    ∃ ran later between last answer,
      job.beforeScript ++ job.script = ran ++ later ∧
      AllPass (run · place.environment place.project) { s.world with files := t } ran between ∧
      (JobStep.provision job base globals project run).run.run s = (answer, { s with world := last }) ∧
      (later = [] ∧ between = last ∧ answer = .ok place ∨
        ∃ command rest result, later = command :: rest ∧
          (run command place.environment place.project).run.run between = (result, last) ∧
          ((∃ r, result = .ok r ∧ r.exitCode ≠ 0 ∧
              answer = .error (.error (.command
                (if ran.length < job.beforeScript.length then .setup else .script)
                ⟨job.name, r.command, r.exitCode, r.stdout, r.stderr⟩))) ∨
            ∃ f, result = .error f ∧ answer = .error (.ofFault f))) ∧
      ∀ record, run.Logs record → record last = record { s.world with files := t } ++
        (ran ++ later.take 1).map (⟨·, place.environment, place.project⟩) := by
  obtain ⟨resolved, -, environment, -⟩ := Job.prepare_ok prepared
  have begun : (JobStep.prepare job base globals project).run.run s =
      (.ok place, { s with world := { s.world with files := t } }) := by
    simp only [JobStep.prepare, ExceptT.run_mk, StateT.run, prepared]
  obtain ⟨ran, later, between, stop, last, commands, passes, halts, result⟩ :=
    run_runCommands (run · place.environment place.project) job
      { s with world := { s.world with files := t } }
  have recorded : ∀ record, run.Logs record → record last = record { s.world with files := t } ++
      (ran ++ later.take 1).map (⟨·, place.environment, place.project⟩) := by
    intro record logs
    rw [halts.logged logs, passes.logged logs, List.map_append, List.append_assoc]
  refine ⟨environment, resolved, ran, later, between, last,
    (stop.map (stopFailure job.name (job.phaseAt ran.length))).elim (.ok place) .error, commands, passes, ?_,
    ?_, recorded⟩
  · unfold JobStep.provision
    rw [run_bind_ok begun]
    cases stop with
    | none => exact run_bind_ok result
    | some answer => exact run_bind_error result
  · cases halts with
    | finished => exact .inl ⟨rfl, rfl, rfl⟩
    | @stopped _ command rest answer asked fails =>
        refine .inr ⟨command, rest, answer, rfl, asked, ?_⟩
        cases answer with
        | ok r => exact .inl ⟨r, rfl, fails r rfl, rfl⟩
        | error f => exact .inr ⟨f, rfl, rfl⟩

section Sample

/-- Keeps a log, and exits with the number of the commands that it ran before. -/
def countingRunner : Runner (List CommandRequest) := fun command environment place =>
  ExceptT.mk fun w => (.ok { command, exitCode := w.own.length },
    { w with own := w.own ++ [⟨command, environment, place⟩] })

def repeatingJob : Job :=
  { name := "j", stage := "s", beforeScript := ["make"], script := ["make", "test"] }

theorem prepare_repeatingJob :
    repeatingJob.prepare [("A", "1")] [] [] {} = (.ok ⟨[("A", "1")], [], []⟩, {}) := by
  have root := FileTree.wellFormed_empty 0
  have directory : ({} : FileTree).isDirectory [] = .ok true :=
    root.ask_eq (FileTree.entryAt?_nil {}) (by simp) _
  unfold Job.prepare
  rw [root.resolve_directory rfl]
  simp only [Except.mapError, bind, Except.bind, directory]
  rfl

/-- The command that the setup ran well fails in the script, and the last command is not run. -/
theorem provision_repeatingJob :
    repeatingJob.prepare [("A", "1")] [] [] {} = (.ok ⟨[("A", "1")], [], []⟩, {}) ∧
      (JobStep.provision repeatingJob [("A", "1")] [] [] countingRunner).run.run ⟨⟨{}, [], []⟩, []⟩ =
        (.error (.error (.command .script ⟨"j", "make", 1, "", ""⟩)),
          ⟨⟨{}, [], [⟨"make", [("A", "1")], []⟩, ⟨"make", [("A", "1")], []⟩]⟩, []⟩) := by
  refine ⟨prepare_repeatingJob, ?_⟩
  obtain ⟨-, -, ran, later, between, last, answer, commands, passes, run, ended, -⟩ :=
    provision_stops_at_first_failure repeatingJob [("A", "1")] [] [] countingRunner ⟨⟨{}, [], []⟩, []⟩
      prepare_repeatingJob
  rw [run]
  have script : repeatingJob.beforeScript ++ repeatingJob.script = ["make", "make", "test"] := rfl
  rw [script] at commands
  cases passes with
  | done =>
      rcases ended with ⟨rfl, -, -⟩ | ⟨command, rest, result, rfl, asked, failed⟩
      · cases commands
      · cases asked
        rcases failed with ⟨r, hr, nonzero, -⟩ | ⟨f, hf, -⟩
        · cases hr
          exact absurd rfl nonzero
        · cases hf
  | next first zero passes =>
      obtain ⟨rfl, commands⟩ := List.cons.inj commands
      cases first
      cases passes with
      | done =>
          rcases ended with ⟨rfl, -, -⟩ | ⟨command, rest, result, rfl, asked, failed⟩
          · cases commands
          · cases commands
            cases asked
            rcases failed with ⟨r, hr, -, rfl⟩ | ⟨f, hf, -⟩
            · cases hr
              rfl
            · cases hf
      | next second zero' =>
          cases second
          cases zero'

end Sample

end Conveyor
