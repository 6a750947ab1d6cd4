import Conveyor.Cache.Memory
import Conveyor.Proofs.Cache.Directory
import Conveyor.Proofs.Job.Steps

/-!
The life of a job: the key, the restore, the workspace, the setup, the script and at most one save, in
this order. What was saved is lost on the way only to the commands, or where the restore itself writes
over it.
-/

namespace Conveyor

variable {σ : Type}

/-- The archive of a key is extracted over something saved. -/
inductive DirectoryStore.Overwrites (root : Location) (key : String) (project : Location) (x : Saved)
    (w : World σ) : Prop
  | extracting {t t' : FileTree} {content : Content} {dest : Location}
      {answer : Except Tar.ExtractFailure Unit}
      (opened : (w.files.makeDirectories (keyDirectory root key)).2 = t)
      (stored : t.readFile (artifactPlace root key) = .ok content) (real : t.resolve project = .ok dest)
      (extracted : ((Tar.Listing.ofContent content).extract dest).run.run t = (answer, t'))
      (gone : ¬x.Holds { w with files := t' })

/-- A request opens the directory of its key, and then either changes no more or extracts an archive. -/
theorem DirectoryStore.restore_cases (root project : Location) (key : String) (w : World σ) {t : FileTree}
    (opened : (w.files.makeDirectories (keyDirectory root key)).2 = t) :
    (∃ answer, (restore root key project).run.run w = (answer, { w with files := t })) ∨
      ∃ content dest, t.readFile (artifactPlace root key) = .ok content ∧ t.resolve project = .ok dest ∧
        (restore root key project).run.run w = (extract key dest content).run.run { w with files := t } := by
  unfold restore
  match made : w.files.makeDirectories (keyDirectory root key) with
  | (.error f, t') =>
      rw [made] at opened
      subst opened
      have failed : (openDirectory root (StoredName.ofKey key).directory).run.run w =
          (.error f, { w with files := t' }) := by
        have run := Action.run_onFiles (·.makeDirectories (keyDirectory root key)) w
        rw [made] at run
        exact run_bind_error run
      exact .inl ⟨_, run_bind_error failed⟩
  | (.ok (), t') =>
      rw [made] at opened
      subst opened
      rw [run_bind_ok (run_openDirectory made)]
      dsimp only
      obtain ⟨there, asked⟩ : ∃ answer, t'.hasPath (artifactPlace root key) = answer := ⟨_, rfl⟩
      match there with
      | .error f => exact .inl ⟨_, run_bind_error (Action.run_ask_of asked)⟩
      | .ok false => exact .inl ⟨_, (run_bind_ok (Action.run_ask_of asked)).trans rfl⟩
      | .ok true =>
          rw [run_bind_ok (Action.run_ask_of asked)]
          simp only [Bool.not_true, Bool.false_eq_true, if_false]
          cases resolved : t'.resolve project with
          | error f => exact .inl ⟨_, run_bind_error (Action.run_ask_of resolved)⟩
          | ok dest =>
              rw [run_bind_ok (Action.run_ask_of resolved), run_bind_ok (run_get _)]
              dsimp only
              cases read : t'.readFile (artifactPlace root key) with
              | error r => exact .inl ⟨_, rfl⟩
              | ok content => exact .inr ⟨content, dest, rfl, rfl, rfl⟩

theorem DirectoryStore.restore_overwrites {root project : Location} {key : String} {x : Saved}
    {w : World σ} (before : x.Holds w) (after : ¬x.Holds ((restore root key project).run.run w).2) :
    Overwrites root key project x w := by
  have kept := before.of_grows (w.files.makeDirectories_grows (keyDirectory root key))
  rcases restore_cases root project key w rfl with ⟨answer, run⟩ | ⟨content, dest, read, resolved, run⟩
  · rw [run] at after
    exact absurd kept after
  · rw [run, extract_run] at after
    match extracted : ((Tar.Listing.ofContent content).extract dest).run.run
        (w.files.makeDirectories (keyDirectory root key)).2 with
    | (.ok (), t') =>
        rw [extracted] at after
        exact .extracting rfl read resolved extracted after
    | (.error f, t') =>
        rw [extracted] at after
        exact .extracting rfl read resolved extracted after

/-- An action that leaves all blobs as they are. -/
def Action.KeepsBlobs {α : Type} (a : Action σ α) : Prop := ∀ w, (a.run.run w).2.blobs = w.blobs

theorem Action.KeepsBlobs.bind {α β : Type} {a : Action σ α} {f : α → Action σ β} (ha : a.KeepsBlobs)
    (hf : ∀ b, (f b).KeepsBlobs) : (a >>= f).KeepsBlobs := by
  intro w
  have first := ha w
  match run : a.run.run w with
  | (.ok b, w') =>
      rw [run] at first
      rw [run_bind_ok run, hf b w', first]
  | (.error e, w') =>
      rw [run] at first
      rw [run_bind_error run, first]

theorem MemoryStore.writeFiles_keepsBlobs (project : Location) (files : Blob) :
    (writeFiles project files : Action σ Unit).KeepsBlobs := by
  induction files with
  | nil => exact fun _ => rfl
  | cons e rest ih => exact .bind (fun _ => rfl) fun _ => .bind (fun _ => rfl) fun _ => ih

theorem MemoryStore.restore_keepsBlobs (key : String) (project : Location) :
    (restore key project : Action σ Restored).KeepsBlobs := by
  refine .bind (fun _ => rfl) fun w => ?_
  split
  · exact fun _ => rfl
  · exact .bind (writeFiles_keepsBlobs _ _) fun _ _ => rfl

namespace JobSetting

/-- Something saved is lost in a call: to a command, or to a restore. The stores lose no blob to a
restore, and a file only where an archive is extracted over it. -/
structure Loses (g : JobSetting σ) (x : Saved) (e : Happening σ) : Prop where
  before : x.Holds e.before
  after : ¬x.Holds e.after
  cause : e.call.isCommand = true ∨ ∃ c key, e.call = .restore c key ∧
    (g.store = MemoryStore.store → ∃ place content, x = .file place content) ∧
      ∀ root, g.store = DirectoryStore.store root →
        DirectoryStore.Overwrites root key g.project x e.before

/-- The life of a job between two worlds, with the calls up to its last command and those after it. -/
structure Lifecycle (g : JobSetting σ) (job : Job) (w : World σ) (result : JobResult) (w' : World σ)
    (steps ending : List (Happening σ)) : Prop where
  /-- The calls come in one order and stop at the first failure. The key is the one from before. -/
  order : ∃ key place failure between failure',
    Proceeds g job w (openingCalls job key ++ commandCalls job place) steps failure between ∧
      Proceeds g job between (g.closingCalls job key steps) ending failure' w' ∧
        ∀ e ∈ steps, e.call.isCommand = true → ∃ p ∈ steps, p.call = .prepare ∧
          (job.prepare (g.environment job) g.globals g.project p.before.files).1 = .ok place
  key : ∀ e ∈ steps ++ ending, ∀ c key, e.call.request? = some (c, key) →
    job.cache = some c ∧ g.resolveKey job c w.files = .ok key
  saves : (∃ e ∈ steps ++ ending, e.call.isSave = true) ↔ ∃ c, job.cache = some c ∧ c.paths ≠ [] ∧
    (∀ e ∈ steps, ∀ f, e.failure = some f → e.call.isCommand = true ∧ f.isOfCommand = true) ∧
      c.policy.shouldSave (steps.all (·.failure.isNone)) = .ok true
  once : (steps ++ ending).countP (·.call.isSave) ≤ 1
  recorded : ∀ e ∈ steps, ∀ f, e.failure = some f → result = failedResult job f
  untouched : ∀ e ∈ steps, ∀ f, e.failure = some f → ¬(e.call.isCommand = true ∧ f.isOfCommand = true) →
    ending = [] ∧ ∀ x : Saved, x.Holds w → ¬x.Holds w' → ∃ lost ∈ steps, g.Loses x lost

variable {g : JobSetting σ} {job : Job}

theorem loses_restore {c : CacheSpec} {key : String} {w w' : World σ} {failure : Option JobFailure}
    (performed : g.perform job (.restore c key) w = (failure, w')) {x : Saved} (before : x.Holds w)
    (after : ¬x.Holds w') :
    (g.store = MemoryStore.store → ∃ place content, x = .file place content) ∧
      ∀ root, g.store = DirectoryStore.store root → DirectoryStore.Overwrites root key g.project x w := by
  have left : w' = ((g.store.restoreCache c g.project key).run.run w).2 := (Prod.mk.inj performed).2.symm
  unfold Store.restoreCache at left
  split at left
  · exact absurd (left ▸ before) after
  · constructor
    · intro memory
      cases x with
      | file place content => exact ⟨place, content, rfl⟩
      | blob k files =>
          rw [memory] at left
          have kept : w'.blobs = w.blobs := left ▸ MemoryStore.restore_keepsBlobs key g.project w
          refine absurd ?_ after
          rw [Saved.Holds, kept]
          exact before
    · intro root directory
      rw [directory] at left
      exact DirectoryStore.restore_overwrites before (left ▸ after)

theorem loses_of_proceeds {w w' : World σ} {steps : List (Happening σ)} {failure : Option JobFailure}
    {key : String} {place : Workspace}
    (h : Proceeds g job w (openingCalls job key ++ commandCalls job place) steps failure w') {x : Saved}
    (before : x.Holds w) (after : ¬x.Holds w') : ∃ e ∈ steps, g.Loses x e := by
  obtain ⟨⟨call, w₁, failed, w₂⟩, he, held, gone⟩ := h.ends before after
  refine ⟨_, he, held, gone, ?_⟩
  have performed : g.perform job call w₁ = (failed, w₂) := h.performed _ he
  have own : ((∃ c, call = .resolveKey c) ∨ call = .prepare) → False := by
    intro own
    have kept : x.Holds (g.perform job call w₁).2 := held.perform own
    rw [performed] at kept
    exact gone kept
  rcases mem_calls (h.mem_plan he) with ⟨c, -, rfl | rfl⟩ | rfl | ⟨phase, line, rfl⟩
  · exact (own (.inl ⟨c, rfl⟩)).elim
  · exact .inr ⟨c, key, rfl, loses_restore performed held gone⟩
  · exact (own (.inr rfl)).elim
  · exact .inl rfl

section

variable {w between w' : World σ} {steps ending : List (Happening σ)} {failure failure' : Option JobFailure}
  {key : String} {place : Workspace}
  (opened : Proceeds g job w (openingCalls job key ++ commandCalls job place) steps failure between)
  (closed : Proceeds g job between (g.closingCalls job key steps) ending failure' w')

include opened in
/-- The key is resolved, or the job does nothing more than try. -/
theorem resolved_or_stopped {c : CacheSpec} (cache : job.cache = some c) :
    (∃ k, g.resolveKey job c w.files = .ok k) ∨ ∃ w' f, steps = [⟨.resolveKey c, w, some f, w'⟩] := by
  rw [openingCalls, cache, Option.toList_some, List.flatMap_singleton] at opened
  rcases opened.first with resolved | ⟨f, stopped⟩
  · rw [perform] at resolved
    cases h : g.resolveKey job c w.files with
    | ok k => exact .inl ⟨k, rfl⟩
    | error f =>
        rw [h] at resolved
        cases resolved
  · exact .inr ⟨_, f, stopped⟩

include opened closed in
theorem requests_key (resolves : ∀ c, job.cache = some c → ∀ k, g.resolveKey job c w.files = .ok k → k = key)
    {e : Happening σ} (he : e ∈ steps ++ ending) {c : CacheSpec} {k : String}
    (request : e.call.request? = some (c, k)) :
    job.cache = some c ∧ g.resolveKey job c w.files = .ok k := by
  have asked : job.cache = some c ∧ k = key ∧ ∀ w' f, steps ≠ [⟨.resolveKey c, w, some f, w'⟩] := by
    obtain ⟨call, w₁, failed, w₂⟩ := e
    rcases List.mem_append.mp he with he | he
    · rcases mem_calls (opened.mem_plan he) with ⟨c', cache, rfl | rfl⟩ | rfl | ⟨phase, line, rfl⟩
      · cases request
      · cases request
        refine ⟨cache, rfl, ?_⟩
        rintro w' f rfl
        simp at he
      · cases request
      · cases request
    · obtain ⟨c', cache, due, rfl | pruned⟩ := mem_closingCalls (closed.mem_plan he)
      · cases request
        refine ⟨cache, rfl, ?_⟩
        rintro w' f rfl
        cases due
      · obtain ⟨keep, rfl⟩ := mem_pruneCalls pruned
        cases request
  obtain ⟨cache, rfl, onward⟩ := asked
  refine ⟨cache, ?_⟩
  rcases resolved_or_stopped opened cache with ⟨k', resolved⟩ | ⟨w', f, stopped⟩
  · rw [resolved, resolves c cache k' resolved]
  · exact absurd stopped (onward w' f)

include opened in
theorem not_save_steps {e : Happening σ} (he : e ∈ steps) : e.call.isSave = false := by
  obtain ⟨call, w₁, failed, w₂⟩ := e
  rcases mem_calls (opened.mem_plan he) with ⟨c, -, rfl | rfl⟩ | rfl | ⟨phase, line, rfl⟩ <;> rfl

include opened closed in
theorem saves_iff : (∃ e ∈ steps ++ ending, e.call.isSave = true) ↔ ∃ c, job.cache = some c ∧ c.paths ≠ [] ∧
    (∀ e ∈ steps, ∀ f, e.failure = some f → e.call.isCommand = true ∧ f.isOfCommand = true) ∧
      c.policy.shouldSave (steps.all (·.failure.isNone)) = .ok true := by
  have due : ∀ c : CacheSpec, c.saveDue steps = true ↔ c.paths ≠ [] ∧
      (∀ e ∈ steps, ∀ f, e.failure = some f → e.call.isCommand = true ∧ f.isOfCommand = true) ∧
        c.policy.shouldSave (steps.all (·.failure.isNone)) = .ok true := by
    intro c
    rw [CacheSpec.saveDue, Bool.and_eq_true, allExcused_iff, c.asksSave_iff, allWell]
    exact and_left_comm
  constructor
  · rintro ⟨e, he, saves⟩
    rcases List.mem_append.mp he with he | he
    · rw [not_save_steps opened he] at saves
      cases saves
    · obtain ⟨c, cache, asks, -⟩ := mem_closingCalls (closed.mem_plan he)
      exact ⟨c, cache, (due c).mp asks⟩
  · rintro ⟨c, cache, asks⟩
    unfold closingCalls at closed
    rw [cache] at closed
    dsimp only at closed
    rw [if_pos ((due c).mpr asks)] at closed
    obtain ⟨e, he, call⟩ := closed.mem_first
    exact ⟨e, List.mem_append_right _ he, by rw [call]; rfl⟩

include opened closed in
theorem saves_once : (steps ++ ending).countP (·.call.isSave) ≤ 1 := by
  have none : steps.countP (·.call.isSave) = 0 :=
    List.countP_eq_zero.mpr fun e he => by simp [not_save_steps opened he]
  have made : (ending.map (·.call)).countP Call.isSave ≤
      (g.closingCalls job key steps).countP Call.isSave :=
    closed.calls.sublist.countP_le
  rw [List.countP_map] at made
  rw [List.countP_append, none, Nat.zero_add]
  exact made.trans (countP_closingCalls key steps)

end

/-- Whatever a store and a runner do, a job lives so. -/
theorem runIsolated_lifecycle (g : JobSetting σ) (job : Job) (s : Session σ) : ∃ steps ending,
    g.Lifecycle job s.world ((g.runIsolated job).run s).1 ((g.runIsolated job).run s).2.world steps
      ending := by
  obtain ⟨key, resolves⟩ : ∃ key, ∀ c, job.cache = some c →
      ∀ k, g.resolveKey job c s.world.files = .ok k → k = key := by
    cases job.cache with
    | none => exact ⟨"", nofun⟩
    | some c =>
        cases h : g.resolveKey job c s.world.files with
        | ok key => exact ⟨key, fun c' hc k hk => by cases hc; cases h.symm.trans hk; rfl⟩
        | error f => exact ⟨"", fun c' hc k hk => by cases hc; cases h.symm.trans hk⟩
  obtain ⟨place, steps, failure, between, ending, failure', opened, prepared, closed, fails⟩ :=
    runJob_calls s resolves
  have world : ((g.runIsolated job).run s).2.world = ((g.runJob job).run.run s).2.world := by
    rw [run_runIsolated]
    match (g.runJob job).run.run s with
    | (.ok r, s₁) => rfl
    | (.error f, s₁) => rfl
  rw [← world] at closed
  refine ⟨steps, ending, ?_, fun e he c key => requests_key opened closed resolves he,
    saves_iff opened closed, saves_once opened closed, fun e he f failed => ?_,
    fun e he f failed unexcused => ?_⟩
  · exact ⟨key, place, failure, between, failure', opened, closed, fun e he isCommand =>
      prepared ⟨e, he, isCommand⟩⟩
  · have failed := fails f ((opened.failure_iff f).mpr ⟨e, he, failed⟩)
    rw [run_runIsolated]
    match run : (g.runJob job).run.run s with
    | (answer, s₁) =>
        rw [run] at failed
        cases failed
        rfl
  · have due : allExcused steps = false := by
      rw [← Bool.not_eq_true, allExcused_iff]
      exact fun excused => unexcused (excused e he f failed)
    rw [closingCalls_of_unexcused due] at closed
    cases closed
    exact ⟨rfl, fun x => loses_of_proceeds opened⟩

section Sample

/-- What an archive brings back: a manifest of another key, from the time of the archive. -/
def formerManifest : List KeptFile := [(["c", "_", "n.manifest.json"], .bytes [0x31])]

/-- A project with a store inside. The archive of a key holds a file of the store that has changed. -/
def nestedTree : FileTree :=
  (((((({} : FileTree).set ["p"] .directory).set ["p", "c"] .directory).set ["p", "c", "_"] .directory).set
    ["p", "c", "_", "k.tar.gz"] (.file (.archive (formerManifest.map KeptFile.member)) 0)).set
    ["p", "c", "_", "n.manifest.json"] (.file (.bytes [0x32]) 0)).set ["p", "f"] (.file (.bytes []) 0)

theorem wellFormed_nestedTree : nestedTree.WellFormed := FileTree.wellFormed_of_entries (by decide)

theorem eq_of_formerManifest {parts : List String} {c : Content} (h : Catch.ofFiles formerManifest parts c) :
    parts = ["c", "_", "n.manifest.json"] ∧ c = .bytes [0x31] :=
  Catch.ofFiles_single.mp h

theorem coherent_formerManifest : (Catch.ofFiles formerManifest).Coherent :=
  Catch.coherent_single (by simp) (by decide)

theorem receives_nestedTree : nestedTree.Receives ["p"] (.ofFiles formerManifest) :=
  wellFormed_nestedTree.receives_single rfl (.inr ⟨_, 0, rfl⟩)

/-- A job whose workspace cannot be prepared where a file stands in the place of a directory. -/
def blockedJob : Job :=
  { name := "j", stage := "s", script := ["make"], cache := some { paths := ["f/"], key := some "k" } }

theorem prepare_blockedJob (base : Environment) {t : FileTree} (wf : t.WellFormed) {c : Content}
    (file : t.HasFile ["p", "f"] c) : ∃ f, blockedJob.prepare base [] ["p"] t = (.error f, t) := by
  obtain ⟨n, there⟩ := file
  have project : t.entryAt? ["p"] = some .directory :=
    wf.directory_of_prefix there ⟨["f"], rfl⟩ (by decide)
  have needed : neededDirectories t ["p"] blockedJob = .ok [["p", "f"]] := by
    have real : t.resolve ["p", "f"] = .ok ["p", "f"] :=
      FileTree.resolve_eq (wf.named _ _ there) (wf.linkFree there (by simp))
    have place : Location.ofPath ["p"] (Path.ofText "f/") = ["p", "f"] := by decide
    have slash : "f/".endsWith "/" = true := by decide +kernel
    simp [neededDirectories, blockedJob, neededDirectory, place, real, slash, bind, Except.bind, pure,
      Except.pure]
    rfl
  have refused : ∃ f, makeWorkspaceDirectories "j" t [["p", "f"]] = (.error f, t) := by
    rw [makeWorkspaceDirectories, FileTree.isDirectory, FileTree.hasPath, wf.ask_eq there (by simp),
      wf.ask_eq there (by simp)]
    exact ⟨_, rfl⟩
  obtain ⟨f, refused⟩ := refused
  refine ⟨f, ?_⟩
  unfold Job.prepare
  rw [wf.resolve_directory project]
  simp only [Except.mapError, bind, Except.bind, FileTree.isDirectory, wf.ask_eq project (by simp), needed,
    Bool.not_true, Bool.false_eq_true, if_false, pure, Except.pure]
  rw [show blockedJob.name = "j" from rfl, refused]

def nestedWorld : World Unit := ⟨nestedTree, [], ()⟩

def nestedSetting : JobSetting Unit where
  store := DirectoryStore.store ["p", "c"]
  runner line _ _ := pure { command := line, exitCode := 0 }
  project := ["p"]
  base := []

theorem restore_nestedWorld : ∃ t, nestedTree.Unpacked t ["p"] (.ofFiles formerManifest) ∧
    ∃ r, (DirectoryStore.restore ["p", "c"] "k" ["p"]).run.run nestedWorld =
      (.ok r, { nestedWorld with files := t }) := by
  obtain ⟨t, run, unpacked⟩ := Tar.Listing.run_extract wellFormed_nestedTree coherent_formerManifest
    receives_nestedTree
  have stored : nestedWorld.files.entryAt? (DirectoryStore.artifactPlace ["p", "c"] "k") =
      some (.file (.archive (formerManifest.map KeptFile.member)) 0) := rfl
  have extracted : ((Tar.Listing.ofContent (.archive (formerManifest.map KeptFile.member))).extract
      ["p"]).run.run nestedWorld.files = (.ok (), t) := run
  rw [DirectoryStore.restore_stored wellFormed_nestedTree stored
    (wellFormed_nestedTree.resolve_directory rfl), DirectoryStore.extract_run, extracted]
  exact ⟨t, unpacked, _, rfl⟩

/-- The former manifest is put back, and then the workspace cannot be prepared. -/
theorem opening_nestedWorld (told : List Notice) : ∃ f s,
    (nestedSetting.opening blockedJob).run.run ⟨nestedWorld, told⟩ = (.error f, s) ∧
      s.world.files.HasFile ["p", "c", "_", "n.manifest.json"] (.bytes [0x31]) := by
  obtain ⟨t, unpacked, r, restored⟩ := restore_nestedWorld
  have restoring : ∃ known s, (nestedSetting.restoring blockedJob).run.run ⟨nestedWorld, told⟩ =
      (.ok known, s) ∧ s.world.files = t := by
    have asked : (JobStep.ofAction (DirectoryStore.restore ["p", "c"] "k" ["p"])).run.run
        ⟨nestedWorld, told⟩ = (.ok r, ⟨{ nestedWorld with files := t }, told⟩) := by
      rw [JobStep.run_ofAction, restored]
      rfl
    exact ⟨_, _, run_bind_ok (run_bind_ok asked), rfl⟩
  obtain ⟨known, s, restoring, rfl⟩ := restoring
  have file : s.world.files.HasFile ["p", "f"] (.bytes []) := by
    refine ⟨0, (unpacked.others _ fun parts c h => ?_).trans rfl⟩
    rw [(eq_of_formerManifest h).1]
    decide
  have refused : ∃ f, blockedJob.prepare (nestedSetting.environment blockedJob) nestedSetting.globals
      nestedSetting.project s.world.files = (.error f, s.world.files) :=
    prepare_blockedJob _ unpacked.wellFormed file
  obtain ⟨f, refused⟩ := refused
  have prepared := run_prepare nestedSetting blockedJob s
  rw [refused] at prepared
  exact ⟨f, s, by rw [opening, run_bind_ok restoring, run_bind_error prepared],
    unpacked.files _ _ (List.mem_singleton.mpr rfl)⟩

theorem world_runIsolated_of_opening {g : JobSetting σ} {job : Job} {s s' : Session σ} {f : JobFailure}
    (opened : (g.opening job).run.run (s.tell (.jobStarted job.name)) = (.error f, s')) :
    ((g.runIsolated job).run s).2.world = s'.world := by
  have told : (JobStep.tell (.jobStarted job.name)).run.run s =
      (.ok (), s.tell (.jobStarted job.name)) := rfl
  rw [run_runIsolated, runJob_eq, run_bind_ok told, run_bind_error opened]
  rfl

/-- A runner that empties the memory of the stores and raises. -/
def raisingSetting : JobSetting Unit where
  store := MemoryStore.store
  runner _ _ _ := do
    modify fun w => { w with blobs := [] }
    throw .nulInPath
  project := []
  base := []

def plainJob : Job := { name := "j", stage := "s", script := ["make"] }

theorem runIsolated_raisingSetting :
    ((raisingSetting.runIsolated plainJob).run ⟨⟨{}, [("k", [])], ()⟩, []⟩).2.world.blobs = [] := by
  have root := FileTree.wellFormed_empty 0
  have directory : ({} : FileTree).isDirectory [] = .ok true :=
    root.ask_eq (FileTree.entryAt?_nil {}) (by simp) _
  have prepared : ∃ place, plainJob.prepare (raisingSetting.environment plainJob) raisingSetting.globals
      raisingSetting.project {} = (.ok place, {}) := by
    unfold Job.prepare
    rw [show raisingSetting.project = [] from rfl, root.resolve_directory rfl]
    simp only [Except.mapError, bind, Except.bind, directory]
    exact ⟨_, rfl⟩
  obtain ⟨place, prepared⟩ := prepared
  have told : (JobStep.tell (.jobStarted plainJob.name)).run.run
      (⟨⟨{}, [("k", [])], ()⟩, []⟩ : Session Unit) =
        (.ok (), ⟨⟨{}, [("k", [])], ()⟩, [.jobStarted "j"]⟩) := rfl
  have opened : (raisingSetting.opening plainJob).run.run ⟨⟨{}, [("k", [])], ()⟩, [.jobStarted "j"]⟩ =
      (.ok (none, place), ⟨⟨{}, [("k", [])], ()⟩, [.jobStarted "j"]⟩) := by
    have run := run_prepare raisingSetting plainJob ⟨⟨{}, [("k", [])], ()⟩, [.jobStarted "j"]⟩
    rw [prepared] at run
    exact run_bind_ok run
  rw [run_runIsolated, runJob_eq, run_bind_ok told, run_bind_ok opened]
  rfl

/-- What was saved may change where nothing is saved: by a restore before a workspace that cannot be
prepared, and by a runner before it raises. -/
theorem saved_changes_without_save :
    (¬ ∀ (g : JobSetting Unit) (job : Job) (s s' : Session Unit) (f : JobFailure) (x : Saved),
      (g.opening job).run.run (s.tell (.jobStarted job.name)) = (.error f, s') → x.Holds s.world →
        x.Holds ((g.runIsolated job).run s).2.world) ∧
    ¬ ∀ (g : JobSetting Unit) (job : Job) (s : Session Unit) (x : Saved),
      (∀ line environment place w, ∃ f, ((g.runner line environment place).run.run w).1 = .error f ∧
        (JobFailure.ofFault f).isOfCommand = false) → x.Holds s.world →
        x.Holds ((g.runIsolated job).run s).2.world := by
  constructor
  · intro untouched
    let start : Session Unit := ⟨nestedWorld, []⟩
    obtain ⟨f, s, run, former⟩ := opening_nestedWorld [.jobStarted "j"]
    have opened : (nestedSetting.opening blockedJob).run.run (start.tell (.jobStarted blockedJob.name)) =
        (.error f, s) := run
    have before : (Saved.file ["p", "c", "_", "n.manifest.json"] (.bytes [0x32])).Holds nestedWorld :=
      ⟨0, rfl⟩
    have after := untouched nestedSetting blockedJob start s f _ opened before
    rw [world_runIsolated_of_opening opened, Saved.Holds] at after
    cases former.unique after
  · intro untouched
    have there := untouched raisingSetting plainJob ⟨⟨{}, [("k", [])], ()⟩, []⟩ (.blob "k" [])
      (fun _ _ _ _ => ⟨_, rfl, rfl⟩) rfl
    rw [Saved.Holds, runIsolated_raisingSetting] at there
    cases there

end Sample

end JobSetting

end Conveyor
