import Conveyor.Proofs.Cache.Retention
import Conveyor.Proofs.Job.Lifecycle
import Conveyor.Proofs.Run.Schedule

/-!
How many archives jobs leave under the keys that they save, over any number of runs on one store. A job
whose commands have all exited with zero prunes what it saved to. A save after a failed command is
followed by no prune, so such a job may leave one archive more than a run was told to keep.
-/

namespace Conveyor

open DirectoryStore

variable {σ : Type}

/-- A job that ran, with the sessions before and after it. -/
structure JobRun (σ : Type) where
  setting : JobSetting σ
  job : Job
  before : Session σ
  result : JobResult
  after : Session σ
  ran : (setting.runIsolated job).run before = (result, after)

namespace JobRun

def executed (r : JobRun σ) : Executed := (r.job, r.result)

/-- The key of the job's cache from before the job, where there is one. -/
def key (r : JobRun σ) : String :=
  (r.job.cache.bind fun c =>
    (r.setting.resolveKey r.job c r.before.world.files).toOption).getD ""

theorem eq_key {r : JobRun σ} {c : CacheSpec} {key : String} (cache : r.job.cache = some c)
    (h : r.setting.resolveKey r.job c r.before.world.files = .ok key) : key = r.key := by
  simp [JobRun.key, cache, h, Except.toOption]

/-- The calls of a job: those up to its last command, and those after it. -/
def Calls (r : JobRun σ) (steps ending : List (Happening σ)) : Prop :=
  ∃ place failure between failure',
    Proceeds r.setting r.job r.before.world (JobSetting.openingCalls r.job r.key ++
      JobSetting.commandCalls r.job place) steps failure between ∧
    Proceeds r.setting r.job between (r.setting.closingCalls r.job r.key steps) ending failure'
      r.after.world

theorem exists_calls (r : JobRun σ) : ∃ steps ending, r.Calls steps ending := by
  have resolves : ∀ c, r.job.cache = some c → ∀ key,
      r.setting.resolveKey r.job c r.before.world.files = .ok key → key = r.key :=
    fun _ cache _ => eq_key cache
  obtain ⟨place, steps, failure, between, ending, failure', opened, -, closed, -⟩ :=
    JobSetting.runJob_calls r.before resolves
  have world : ((r.setting.runIsolated r.job).run r.before).2.world =
      ((r.setting.runJob r.job).run.run r.before).2.world := by
    rw [JobSetting.run_runIsolated]
    match (r.setting.runJob r.job).run.run r.before with
    | (.ok _, _) => rfl
    | (.error _, _) => rfl
  rw [← world, r.ran] at closed
  exact ⟨steps, ending, place, failure, between, failure', opened, closed⟩

/-- The job has written its cache. -/
def Writes (r : JobRun σ) : Prop :=
  ∃ steps ending, r.Calls steps ending ∧ ∃ e ∈ ending, e.call.isSave = true ∧ e.failure = none

end JobRun

theorem JobSetting.resolveKey_ok {g : JobSetting σ} {job : Job} {c : CacheSpec} {t : FileTree}
    {key : String} (h : g.resolveKey job c t = .ok key) : c.resolveKey t g.project = .ok key := by
  unfold JobSetting.resolveKey at h
  split at h
  · cases h
  · exact h

variable {root : Location} {n : Int}

/-- A save among the calls after the commands is one of the job's cache under its key. -/
theorem JobRun.save_in_ending {r : JobRun σ} {place : Workspace} {steps ending : List (Happening σ)}
    {failure failure' : Option JobFailure} {between : World σ}
    (opened : Proceeds r.setting r.job r.before.world (JobSetting.openingCalls r.job r.key ++
      JobSetting.commandCalls r.job place) steps failure between)
    (closed : Proceeds r.setting r.job between (r.setting.closingCalls r.job r.key steps) ending failure'
      r.after.world) {e : Happening σ} (he : e ∈ ending) (saves : e.call.isSave = true) :
    ∃ c, r.job.cache = some c ∧ c.saveDue steps = true ∧
      r.setting.resolveKey r.job c r.before.world.files = .ok r.key := by
  obtain ⟨c, cache, due, saved | pruned⟩ := JobSetting.mem_closingCalls (closed.mem_plan he)
  · obtain ⟨-, own⟩ := JobSetting.requests_key opened closed (fun _ cache _ => JobRun.eq_key cache)
      (List.mem_append_right steps he) (by rw [saved]; rfl)
    exact ⟨c, cache, due, own⟩
  · obtain ⟨keep, prune⟩ := JobSetting.mem_pruneCalls pruned
    rw [prune] at saves
    cases saves

/-- What a job that has written its cache leaves in the directory of its key. -/
structure Retention (root : Location) (n : Int) (r : JobRun σ) (steps ending : List (Happening σ)) :
    Prop where
  own : ∃ c, r.job.cache = some c ∧ r.setting.resolveKey r.job c r.before.world.files = .ok r.key
  pruned : allWell steps = true → ∃ c p, r.job.cache = some c ∧ p ∈ ending ∧ p.call = .prune c n
  bounded : allWell steps = true → allWell ending = true →
    HoldsAtMost r.after.world.files (keyDirectory root r.key) n
  unpruned : allWell steps = false → ∃ c w, ending = [⟨.save c r.key, w, none, r.after.world⟩]

/-- What follows a save that succeeded: a prune of the scope, if all commands have exited with zero. -/
theorem retention {r : JobRun σ} (store : r.setting.store = DirectoryStore.store root)
    (limited : r.setting.keep = some n) (positive : 1 ≤ n)
    (free : ∀ c, r.job.cache = some c → c.ColonFree) {steps ending : List (Happening σ)}
    (calls : r.Calls steps ending)
    (written : ∃ e ∈ ending, e.call.isSave = true ∧ e.failure = none) :
    Retention root n r steps ending := by
  obtain ⟨place, failure, between, failure', opened, closed⟩ := calls
  obtain ⟨e, he, saves, well⟩ := written
  obtain ⟨c, cache, due, own⟩ := JobRun.save_in_ending opened closed he saves
  have some_prune : r.setting.store.prune = some (prune root) := by rw [store]; rfl
  have prunes : r.setting.pruneCalls c = [.prune c n] := by
    rw [JobSetting.pruneCalls, some_prune, limited]
    exact if_pos (by omega)
  rw [JobSetting.closingCalls, cache] at closed
  dsimp only at closed
  rw [if_pos due, prunes] at closed
  cases closed with
  | stop performed =>
      rw [List.mem_singleton.mp he] at well
      cases well
  | @next _ w _ _ _ made _ performed rest =>
      refine ⟨⟨c, cache, own⟩, fun all => ?_, fun all pruned => ?_, fun failed => ?_⟩
      · rw [if_pos all] at rest
        obtain ⟨p, hp, prune⟩ := rest.mem_first
        exact ⟨c, p, cache, List.mem_cons_of_mem _ hp, prune⟩
      · rw [if_pos all] at rest
        cases rest with
        | stop _ => simp [allWell] at pruned
        | next pruning rest =>
            cases rest
            have performed : (prune root c.scope n).outcome w = (none, r.after.world) := by
              rw [← pruning, JobSetting.perform, some_prune]
            obtain ⟨⟨⟩, run⟩ := Action.of_outcome_eq_none performed
            have directory := (CacheSpec.directory_ofKey (JobSetting.resolveKey_ok own)).mpr
              (free c cache)
            rw [prune_eq, ← directory] at run
            exact pruneDirectory_ok (by omega) run
      · rw [if_neg (by simp [failed])] at rest
        cases rest
        exact ⟨c, _, rfl⟩

/-- Jobs run one after the other, and nothing happens in between. -/
inductive JobChain (g : JobSetting σ) : Session σ → List (JobRun σ) → Session σ → Prop
  | none {s s' : Session σ} (idle : s.Idle s') : JobChain g s [] s'
  | job {s s' : Session σ} {r : JobRun σ} {rest : List (JobRun σ)} (setting : r.setting = g)
      (idle : s.Idle r.before) (later : JobChain g r.after rest s') : JobChain g s (r :: rest) s'

theorem JobSetting.Runs.chain {g : JobSetting σ} {s s' : Session σ} {ran : List Executed}
    (runs : g.Runs s ran s') :
    ∃ jobs : List (JobRun σ), JobChain g s jobs s' ∧ jobs.map JobRun.executed = ran := by
  induction runs with
  | none idle => exact ⟨[], .none idle, rfl⟩
  | @job _ s₁ s₂ _ job result _ idle run _ ih =>
      obtain ⟨jobs, chain, rfl⟩ := ih
      exact ⟨⟨g, job, s₁, result, s₂, run⟩ :: jobs, .job rfl idle chain, rfl⟩

theorem JobChain.setting_eq {g : JobSetting σ} {s s' : Session σ} {jobs : List (JobRun σ)}
    (chain : JobChain g s jobs s') : ∀ r ∈ jobs, r.setting = g := by
  induction chain with
  | none => simp
  | job setting _ _ ih => exact List.forall_mem_cons.mpr ⟨setting, ih⟩

/-- A run of a pipeline that is asked for. -/
structure RunCall (σ : Type) where
  pipeline : Pipeline
  event : Event
  project : Location
  options : RunOptions σ

namespace RunCall

def perform (call : RunCall σ) : RunStep σ RunReport :=
  call.pipeline.run call.event call.project call.options

/-- A run keeps a number of archives for each scope of one store, and its jobs have literal keys
without colons. -/
structure Keeps (call : RunCall σ) (root : Location) (n : Int) : Prop where
  built : call.pipeline.IsBuilt
  store : call.options.store = some (DirectoryStore.store root)
  keep : call.options.keep = some n
  free : ∀ job ∈ call.pipeline.jobs, ∀ c, job.cache = some c → c.ColonFree

/-- What the jobs of the run share. -/
def setting (call : RunCall σ) : Action σ (JobSetting σ) :=
  call.options.setting call.pipeline call.event call.project

/-- What a run does: its jobs run by its schedule, or it has no setting to run them in. -/
inductive Does (call : RunCall σ) (s : Session σ) : List (JobRun σ) → Session σ → Prop
  | stopped {f : Fault} {w : World σ} (unset : call.setting.run.run s.world = (.error f, w))
      (run : call.perform.run.run s = (.error f, { s with world := w })) :
      Does call s [] { s with world := w }
  | ran {g : JobSetting σ} {w : World σ} {jobs : List (JobRun σ)} {report : RunReport} {s' : Session σ}
      (set : call.setting.run.run s.world = (.ok g, w)) (run : call.perform.run.run s = (.ok report, s'))
      (chain : JobChain g { s with world := w } jobs s')
      (scheduled : call.pipeline.Scheduled call.event call.options.failFast (jobs.map JobRun.executed)
        report) : Does call s jobs s'

end RunCall

/-- Runs one after the other, with all the jobs that run in them. -/
inductive Performs : List (RunCall σ) → Session σ → List (JobRun σ) → Session σ → Prop
  | none (s : Session σ) : Performs [] s [] s
  | next {call : RunCall σ} {calls : List (RunCall σ)} {s s₁ s' : Session σ}
      {jobs later : List (JobRun σ)} (first : call.Does s jobs s₁) (rest : Performs calls s₁ later s') :
      Performs (call :: calls) s (jobs ++ later) s'

namespace RunCall

variable {call : RunCall σ}

theorem exists_does (built : call.pipeline.IsBuilt) (s : Session σ) :
    ∃ jobs s', call.Does s jobs s' := by
  have sound := built.sound
  match set : call.setting.run.run s.world with
  | (.error f, w) => exact ⟨[], _, .stopped set (run_bind_error (RunStep.run_ofAction set))⟩
  | (.ok g, w) =>
      obtain ⟨ran, notes, s', hrun, runs, passes⟩ := sound.run_passes set
      obtain ⟨report, hcollect, scheduled⟩ := sound.scheduled passes
      obtain ⟨jobs, chain, rfl⟩ := runs.chain
      exact ⟨jobs, s', .ran set (hrun.trans (by rw [hcollect])) chain scheduled⟩

theorem Keeps.setting_ok (keeps : call.Keeps root n) {w w' : World σ} {g : JobSetting σ}
    (h : call.setting.run.run w = (.ok g, w')) :
    g.store = DirectoryStore.store root ∧ g.keep = some n := by
  unfold setting RunOptions.setting at h
  obtain ⟨project, _, -, h⟩ := run_ok_of_bind_ok h
  rw [keeps.store] at h
  obtain ⟨store, _, given, h⟩ := run_ok_of_bind_ok h
  obtain ⟨cacheRoot, _, -, h⟩ := run_ok_of_bind_ok h
  cases h
  cases given
  exact ⟨rfl, keeps.keep⟩

theorem Keeps.jobs (keeps : call.Keeps root n) {s s' : Session σ} {jobs : List (JobRun σ)}
    (does : call.Does s jobs s') : ∀ r ∈ jobs, r.setting.store = DirectoryStore.store root ∧
      r.setting.keep = some n ∧ ∀ c, r.job.cache = some c → c.ColonFree := by
  cases does with
  | stopped => simp
  | ran set run chain scheduled =>
      intro r hr
      obtain ⟨store, keep⟩ := keeps.setting_ok set
      rw [chain.setting_eq r hr]
      exact ⟨store, keep, keeps.free r.job (scheduled.own r.executed (List.mem_map_of_mem hr))⟩

end RunCall

theorem Performs.exists {calls : List (RunCall σ)} (built : ∀ call ∈ calls, call.pipeline.IsBuilt)
    (s : Session σ) : ∃ jobs s', Performs calls s jobs s' := by
  induction calls generalizing s with
  | nil => exact ⟨[], s, .none s⟩
  | cons call rest ih =>
      obtain ⟨first, others⟩ := List.forall_mem_cons.mp built
      obtain ⟨jobs, s₁, does⟩ := RunCall.exists_does first s
      obtain ⟨later, s', performs⟩ := ih others s₁
      exact ⟨_, s', .next does performs⟩

theorem Performs.jobs {calls : List (RunCall σ)} (keeps : ∀ call ∈ calls, call.Keeps root n)
    {s s' : Session σ} {jobs : List (JobRun σ)} (performs : Performs calls s jobs s') :
    ∀ r ∈ jobs, r.setting.store = DirectoryStore.store root ∧ r.setting.keep = some n ∧
      ∀ c, r.job.cache = some c → c.ColonFree := by
  induction performs with
  | none => simp
  | next first _ ih =>
      obtain ⟨itself, others⟩ := List.forall_mem_cons.mp keeps
      exact List.forall_mem_append.mpr ⟨itself.jobs first, ih others⟩

/-- Any number of runs on one store, in which jobs end as they may. A job that has written its cache
leaves no more archives under its key than are to be kept, if its commands have all exited with zero and
the prune has found nothing in its way; after a command that failed, its save is the last that it does
to the store. -/
theorem runs_retain (positive : 1 ≤ n) {calls : List (RunCall σ)}
    (keeps : ∀ call ∈ calls, call.Keeps root n) (s : Session σ) :
    ∃ jobs s', Performs calls s jobs s' ∧ ∀ r ∈ jobs, (∃ steps ending, r.Calls steps ending) ∧
      ∀ steps ending, r.Calls steps ending →
        (∃ e ∈ ending, e.call.isSave = true ∧ e.failure = none) → Retention root n r steps ending := by
  obtain ⟨jobs, s', performs⟩ := Performs.exists (fun call hcall => (keeps call hcall).built) s
  refine ⟨jobs, s', performs, fun r hr => ⟨r.exists_calls, fun steps ending calls written => ?_⟩⟩
  obtain ⟨store, limited, free⟩ := performs.jobs keeps r hr
  exact retention store limited positive free calls written

section Sample

/-- A project, and a store that holds one archive. -/
def stockedTree : FileTree :=
  (((({} : FileTree).set ["p"] .directory).set ["c"] .directory).set ["c", "_"] .directory).set
    ["c", "_", "a.tar.gz"] (.file (.archive []) 0)

/-- A cache that is saved however the commands end. -/
def savedCache : CacheSpec := { paths := ["f"], policy := .always, key := some "b" }

def savingJob : Job := { name := "j", stage := "test", script := ["make"], cache := some savedCache }

/-- A run of the job alone that keeps one archive; its command exits with a number. -/
def savingCall (exit : Int) : RunCall Unit where
  pipeline := { stages := Stage.number ["test"], jobs := [savingJob] }
  event := ⟨"push", none, none⟩
  project := ["p"]
  options := {
    store := some (DirectoryStore.store ["c"])
    runner := fun command _ _ => pure ⟨command, exit, "", ""⟩
    environment := []
    failFast := false
    keep := some 1 }

theorem wellFormed_stockedTree : stockedTree.WellFormed := FileTree.wellFormed_of_entries (by decide)

theorem keeps_savingCall (exit : Int) : (savingCall exit).Keeps ["c"] 1 := by
  refine ⟨.written ["test"] [savingJob] [] ?_, rfl, rfl, fun job hjob c cache => ?_⟩
  · have distinct : repeatedNames ["test"] = [] := by simp [repeatedNames]
    have checked : Build.checkJobs ["test"] [] [savingJob] = .ok () := rfl
    rw [Build.pipeline, distinct]
    simp only [checked]
    rfl
  · obtain rfl := List.mem_singleton.mp hjob
    cases cache
    simp [CacheSpec.ColonFree, savedCache]

theorem places_b : keyDirectory ["c"] "b" = ["c", "_"] ∧
    artifactPlace ["c"] "b" = ["c", "_", "b.tar.gz"] ∧
      manifestPlace ["c"] "b" = ["c", "_", "b.manifest.json"] := by
  decide

theorem ready_stockedTree : Ready stockedTree ["c"] "b" := by
  obtain ⟨directory, artifact, manifest⟩ := places_b
  refine ⟨wellFormed_stockedTree, rfl, .inr ?_, ?_, ?_, by decide, by decide⟩
  · rw [directory]
    rfl
  · rw [artifact]
    exact fun h => by cases h
  · rw [manifest]
    exact fun h => by cases h

/-- What a job shares with the other jobs of such a run, whatever its environment is. -/
def savingSetting (base : Environment) (globals : Variables) (exit : Int) : JobSetting Unit where
  store := DirectoryStore.store ["c"]
  runner := fun command _ _ => pure ⟨command, exit, "", ""⟩
  project := ["p"]
  base := base
  globals := globals
  keep := some 1

theorem mem_stockedTree {l : Location} {e : Entry} (h : stockedTree.entryAt? l = some e) (hl : l ≠ []) :
    (l, e) ∈ [(["p"], Entry.directory), (["c"], .directory), (["c", "_"], .directory),
      (["c", "_", "a.tar.gz"], .file (.archive []) 0)] := by
  exact (FileTree.mem_entries_of_entryAt? h).resolve_left fun root => hl root.1

theorem linkFree_stockedTree (l : Location) : stockedTree.LinkFree l := by
  intro m _ target link
  have entry := mem_stockedTree link (by rintro rfl; cases link)
  simp at entry

theorem home_stockedTree : stockedTree.Home ["p"] := by
  refine ⟨rfl, fun parts target link => ?_, fun parts e there c hc => ?_⟩
  · exact linkFree_stockedTree _ _ (List.prefix_refl _) target link
  · have entry := mem_stockedTree there (by simp)
    obtain ⟨rfl, -⟩ : parts = [] ∧ e = .directory := by simpa using entry
    cases hc

abbrev stockedWorld : World Unit := ⟨stockedTree, [], ()⟩

theorem restore_stockedWorld : (DirectoryStore.restore ["c"] "b" ["p"]).run.run stockedWorld =
    (.ok ⟨false, "b", "cache miss"⟩, stockedWorld) := by
  obtain ⟨directory, artifact, -⟩ := places_b
  have there : stockedTree.entryAt? (keyDirectory ["c"] "b") = some .directory := by
    rw [directory]
    rfl
  have opened := run_openDirectory (w := stockedWorld)
    (wellFormed_stockedTree.makeDirectories_old there)
  have asked : (Action.ask (·.hasPath (artifactPlace ["c"] "b"))).run.run stockedWorld =
      (.ok false, stockedWorld) := by
    rw [Action.run_ask, FileTree.hasPath, artifact,
      FileTree.ask_of_none (by decide) (linkFree_stockedTree _) rfl]
  rw [DirectoryStore.restore, run_bind_ok opened]
  dsimp only
  rw [run_bind_ok asked]
  rfl

theorem prepare_savingJob (base : Environment) (globals : Variables) : ∃ place,
    savingJob.prepare base globals ["p"] stockedTree = (.ok place, stockedTree) := by
  have there : stockedTree.entryAt? ["p"] = some .directory := rfl
  have needed : neededDirectories stockedTree ["p"] savingJob = .ok [["p"]] := by
    have real : stockedTree.resolve ["p", "f"] = .ok ["p", "f"] :=
      FileTree.resolve_eq (by decide) (linkFree_stockedTree _)
    have place : Location.ofPath ["p"] (Path.ofText "f") = ["p", "f"] := by decide
    have slash : "f".endsWith "/" = false := by decide +kernel
    simp [neededDirectories, savingJob, savedCache, neededDirectory, place, real, slash, bind,
      Except.bind, pure, Except.pure]
    rfl
  unfold Job.prepare
  rw [wellFormed_stockedTree.resolve_directory there]
  simp only [Except.mapError, bind, Except.bind, FileTree.isDirectory,
    wellFormed_stockedTree.ask_eq there (by simp), needed, Bool.not_true, Bool.false_eq_true, if_false,
    pure, Except.pure, makeWorkspaceDirectories]
  exact ⟨_, rfl⟩

theorem save_stockedWorld : ∃ w' members, (DirectoryStore.save ["c"] "b" ["f"] ["p"]).run.run stockedWorld =
    (.ok (), w') ∧ SavedTo stockedTree w'.files ["c"] "b" members := by
  have real : stockedTree.resolve ["p"] = .ok ["p"] :=
    wellFormed_stockedTree.resolve_directory rfl
  have apart : Apart ["c"] ["p"] := ⟨by decide, by decide⟩
  have accepted : stockedTree.Accepted ["p"] "f" := by
    have place : Location.ofPath ["p"] (Path.ofText "f") = ["p", "f"] := by decide
    refine ⟨["p", "f"], ?_, linkFree_stockedTree _, by decide⟩
    rw [place]
    exact FileTree.resolve_eq (by decide) (linkFree_stockedTree _)
  have ready : Ready stockedWorld.files ["c"] "b" := ready_stockedTree
  rcases ready.run_save real home_stockedTree apart ["f"] with
    ⟨fault, t', -, -, path, hpath, refused⟩ | ⟨files, t', run, -, saved⟩
  · rw [List.mem_singleton.mp hpath] at refused
    exact absurd accepted refused
  · exact ⟨_, _, run, saved⟩

section Calls

variable (base : Environment) (globals : Variables)

def savingSteps (place : Workspace) (f : JobFailure) : List (Happening Unit) := [
  ⟨.resolveKey savedCache, stockedWorld, none, stockedWorld⟩,
  ⟨.restore savedCache "b", stockedWorld, none, stockedWorld⟩,
  ⟨.prepare, stockedWorld, none, stockedWorld⟩,
  ⟨.command .script place "make", stockedWorld, some f, stockedWorld⟩]

/-- The calls of the job up to its command, which fails. -/
theorem opening_savingJob (place : Workspace) : ∃ f, f.isOfCommand = true ∧
    Proceeds (savingSetting base globals 1) savingJob stockedWorld
      (JobSetting.openingCalls savingJob "b" ++ JobSetting.commandCalls savingJob place)
      (savingSteps place f) (some f) stockedWorld := by
  have restored : (savingSetting base globals 1).perform savingJob (.restore savedCache "b")
      stockedWorld = (none, stockedWorld) := by
    have run : ((savingSetting base globals 1).store.restoreCache savedCache ["p"] "b").run.run
        stockedWorld = (.ok ⟨false, "b", "cache miss"⟩, stockedWorld) := restore_stockedWorld
    change ((savingSetting base globals 1).store.restoreCache savedCache ["p"] "b").outcome _ = _
    rw [Action.outcome, run]
    rfl
  have prepared : (savingSetting base globals 1).perform savingJob .prepare stockedWorld =
      (none, stockedWorld) := by
    let g := savingSetting base globals 1
    obtain ⟨found, run⟩ : ∃ found, savingJob.prepare (g.environment savingJob) g.globals g.project
        stockedWorld.files = (.ok found, stockedTree) := prepare_savingJob _ globals
    rw [JobSetting.perform, run]
    rfl
  exact ⟨_, rfl, .next rfl (.next restored (.next prepared (.stop rfl)))⟩

/-- The job saves its cache after the failure, and does no more. -/
theorem calls_savingJob (r : JobRun Unit) (setting : r.setting = savingSetting base globals 1)
    (job : r.job = savingJob) (before : r.before.world = stockedWorld) :
    r.key = "b" ∧ r.Writes ∧ ∃ members, SavedTo stockedTree r.after.world.files ["c"] "b" members := by
  have key : r.key = "b" := by
    refine (JobRun.eq_key (c := savedCache) (by rw [job]; rfl) ?_).symm
    rw [setting, job, before]
    rfl
  obtain ⟨steps, ending, calls⟩ := r.exists_calls
  have made := calls
  obtain ⟨place, failure, between, failure', opened, closed⟩ := calls
  obtain ⟨f, excused, followed⟩ := opening_savingJob base globals place
  obtain ⟨w', members, run, saved⟩ := save_stockedWorld
  rw [setting, job, key] at opened closed
  rw [before] at opened
  obtain ⟨rfl, -, rfl⟩ := opened.unique followed
  have last : (savingSetting base globals 1).perform savingJob (.save savedCache "b") stockedWorld =
      (none, w') := by
    change (DirectoryStore.save ["c"] "b" ["f"] ["p"]).outcome stockedWorld = _
    rw [Action.outcome, run]
    rfl
  have plan : (savingSetting base globals 1).closingCalls savingJob "b" (savingSteps place f) =
      [.save savedCache "b"] := by
    have due : savedCache.saveDue (savingSteps place f) = true := by
      simp [CacheSpec.saveDue, savingSteps, allExcused, Happening.isExcused, Call.isCommand, excused,
        allWell]
      rfl
    unfold JobSetting.closingCalls
    change (if savedCache.saveDue _ = true then _ else _) = _
    rw [if_pos due]
    rfl
  rw [plan] at closed
  obtain ⟨rfl, -, rfl⟩ := closed.unique (.single last)
  exact ⟨key, ⟨_, _, made, _, List.mem_singleton.mpr rfl, rfl, rfl⟩, members, saved⟩

end Calls

theorem setting_savingCall (exit : Int) :
    ∃ base globals, (savingCall exit).setting.run.run stockedWorld =
      (.ok (savingSetting base globals exit), stockedWorld) := by
  have project : stockedTree.resolve ["p"] = .ok ["p"] := wellFormed_stockedTree.resolve_directory rfl
  have root : stockedTree.resolve ["c"] = .ok ["c"] := wellFormed_stockedTree.resolve_directory rfl
  unfold RunCall.setting RunOptions.setting
  rw [run_bind_ok (Action.run_ask_of (w := stockedWorld) project)]
  dsimp only [savingCall]
  rw [run_bind_ok (run_pure _ _), run_bind_ok (Action.run_ask_of (w := stockedWorld) root)]
  exact ⟨_, _, rfl⟩

/-- Two runs after each other, of which the second has a command that fails. -/
theorem runs_retain_stocked : (1 : Int) ≤ 1 ∧
    (∀ call ∈ [savingCall 0, savingCall 1], call.Keeps ["c"] 1) ∧
    ∃ jobs s', Performs [savingCall 0, savingCall 1] ⟨stockedWorld, []⟩ jobs s' ∧
      ∀ r ∈ jobs, (∃ steps ending, r.Calls steps ending) ∧ ∀ steps ending, r.Calls steps ending →
        (∃ e ∈ ending, e.call.isSave = true ∧ e.failure = none) → Retention ["c"] 1 r steps ending := by
  have keeps : ∀ call ∈ [savingCall 0, savingCall 1], call.Keeps ["c"] 1 := by
    simpa using ⟨keeps_savingCall 0, keeps_savingCall 1⟩
  exact ⟨by decide, keeps, runs_retain (by decide) keeps ⟨stockedWorld, []⟩⟩

/-- Both archives are there after the save. -/
theorem not_holdsAtMost_savedTo {t : FileTree} {members : List Member}
    (saved : SavedTo stockedTree t ["c"] "b" members) : ¬ HoldsAtMost t ["c", "_"] 1 := by
  rintro ⟨found, listed, few⟩
  obtain ⟨-, artifact, manifest⟩ := places_b
  have older : t.HasFile (["c", "_"] ++ ["a" ++ artifactEnding]) (.archive []) := by
    refine ⟨0, ?_⟩
    rw [saved.others _ (by rw [artifact]; decide) (by rw [manifest]; decide), if_neg (by decide)]
    rfl
  have newer : t.HasFile (["c", "_"] ++ ["b" ++ artifactEnding]) (.archive members) := saved.artifact
  have both : (["a", "b"] : List String).Subperm (found.map (·.name)) := by
    refine List.subperm_of_subset (by decide) ?_
    simp only [List.cons_subset, List.nil_subset, and_true]
    exact ⟨mem_of_storedIn saved.wellFormed older listed, mem_of_storedIn saved.wellFormed newer listed⟩
  have := both.length_le
  rw [List.length_map, List.length_cons, List.length_singleton] at this
  omega

/-- A store that holds one archive, as many as are to be kept, holds two after a job that has failed. -/
theorem runs_exceed_after_failure : ¬ ∀ (root : Location) (n : Int) (calls : List (RunCall Unit))
    (s s' : Session Unit) (jobs : List (JobRun Unit)), 1 ≤ n → (∀ call ∈ calls, call.Keeps root n) →
      Performs calls s jobs s' → ∀ r ∈ jobs, r.Writes →
        HoldsAtMost r.after.world.files (keyDirectory root r.key) n := by
  intro bounded
  have keeps : ∀ call ∈ [savingCall 1], call.Keeps ["c"] 1 := by
    simpa using keeps_savingCall 1
  obtain ⟨base, globals, set⟩ := setting_savingCall 1
  obtain ⟨jobs, s', performs⟩ := Performs.exists (fun call hcall => (keeps call hcall).built)
    ⟨stockedWorld, []⟩
  have bounded := bounded ["c"] 1 _ _ s' jobs (by decide) keeps performs
  cases performs with
  | next first rest =>
      cases rest
      cases first with
      | stopped unset _ => cases set.symm.trans unset
      | @ran g _ jobs report _ set' _ chain scheduled =>
          cases set.symm.trans set'
          have own := scheduled.own
          obtain ⟨ran, hran, -⟩ := scheduled.unbroken nofun savingJob (List.mem_singleton.mpr rfl) rfl
          cases chain with
          | none => cases hran
          | @job _ _ r later setting idle _ =>
              have job : r.job = savingJob :=
                List.mem_singleton.mp (own r.executed List.mem_cons_self)
              obtain ⟨key, writes, members, saved⟩ := calls_savingJob base globals r setting job idle.world
              have few := bounded r (List.mem_append_left _ List.mem_cons_self) writes
              rw [key, places_b.1] at few
              exact not_holdsAtMost_savedTo saved few

end Sample

end Conveyor
