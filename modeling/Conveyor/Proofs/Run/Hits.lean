import Conveyor.Proofs.Run.Visits

/-!
When a job finds its cache, over any number of runs that share one store in memory. The store holds a key
just when a job has written under it, and only a save after the commands of a job writes.
-/

namespace Conveyor

variable {σ : Type}

namespace JobRun

variable {r : JobRun σ}

/-- The job has saved its cache under a key. -/
def WritesUnder (r : JobRun σ) (key : String) : Prop :=
  ∃ steps ending, r.Makes steps ending ∧ ∃ c, ∃ e ∈ ending, e.call = .save c key ∧ e.failure = none

/-- What it takes to write under a key: a cache with paths and with this key before the job, and commands
that ended as the policy asks. -/
def Earns (r : JobRun σ) (key : String) : Prop :=
  ∃ c, r.job.cache = some c ∧ c.paths ≠ [] ∧
    c.resolveKey r.before.world.files r.setting.project = .ok key ∧
      (r.result.status = .success ∧ c.policy.shouldSave true = .ok true ∨
        (∃ phase failed, r.result = JobSetting.failedResult r.job (.error (.command phase failed))) ∧
          c.policy.shouldSave false = .ok true)

end JobRun

namespace MemoryStore

theorem run_save_cases (key : String) (paths : List String) (project : Location) (w : World σ) :
    (∃ f, (save key paths project).run.run w = (.error f, w)) ∨
      ∃ blob, (save key paths project).run.run w = (.ok (), { w with blobs := w.blobs.put key blob }) := by
  unfold save
  cases selected : w.files.selection project paths with
  | error f => exact .inl ⟨f, run_bind_error (Action.run_ask_of selected)⟩
  | ok selected' =>
      rw [run_bind_ok (Action.run_ask_of selected)]
      cases files : w.files.readSelected selected' with
      | error f => exact .inl ⟨f, run_bind_error (Action.run_ask_of files)⟩
      | ok files' =>
          rw [run_bind_ok (Action.run_ask_of files)]
          exact .inr ⟨_, rfl⟩

/-- A request finds something just where there is a blob. -/
theorem hit_of_restore {key : String} {project : Location} {w w' : World σ} {answer : Restored}
    (h : (restore key project).run.run w = (.ok answer, w')) : answer.hit = w.blobs.has key := by
  obtain ⟨_, _, got, h⟩ := run_ok_of_bind_ok h
  cases got
  unfold Table.has
  split at h
  · rename_i none
    cases h
    rw [none]
    rfl
  · rename_i some
    obtain ⟨_, _, -, h⟩ := run_ok_of_bind_ok h
    cases h
    rw [some]
    rfl

end MemoryStore

/-- The setting of jobs that share a store in memory, with a runner that does not touch it. -/
structure JobSetting.SharesMemory (g : JobSetting σ) : Prop where
  store : g.store = MemoryStore.store
  runner : ∀ line environment place, (g.runner line environment place).KeepsBlobs

namespace JobSetting.SharesMemory

variable {g : JobSetting σ} (shares : g.SharesMemory) {job : Job}
include shares

/-- The blobs after a call: a save that succeeds adds its key, and nothing else matters. -/
theorem has_perform (job : Job) (call : Call) (w : World σ) (key : String) :
    (g.perform job call w).2.blobs.has key = true ↔ w.blobs.has key = true ∨
      (∃ c, call = .save c key) ∧ (g.perform job call w).1 = none := by
  have kept : (∀ c, call ≠ .save c key) → (g.perform job call w).2.blobs = w.blobs →
      ((g.perform job call w).2.blobs.has key = true ↔ w.blobs.has key = true ∨
        (∃ c, call = .save c key) ∧ (g.perform job call w).1 = none) := by
    intro other same
    simp [same, other]
  cases call with
  | resolveKey c => exact kept (by simp) rfl
  | prepare => exact kept (by simp) rfl
  | restore c k =>
      refine kept (by simp) ?_
      rw [perform, shares.store, Action.outcome, Store.restoreCache]
      split
      · rfl
      · exact MemoryStore.restore_keepsBlobs k g.project w
  | command phase place line =>
      have own := shares.runner line place.environment place.project w
      refine kept (by simp) ?_
      unfold perform
      dsimp only
      split <;> rename_i run <;> rwa [run] at own
  | prune c keep =>
      refine kept (by simp) ?_
      rw [perform, shares.store]
      rfl
  | save c k =>
      rw [perform, shares.store]
      change ((MemoryStore.save k c.paths g.project).outcome w).2.blobs.has key = true ↔ _ ∨ _ ∧
        ((MemoryStore.save k c.paths g.project).outcome w).1 = none
      rw [Action.outcome]
      rcases MemoryStore.run_save_cases k c.paths g.project w with ⟨f, run⟩ | ⟨blob, run⟩ <;> rw [run]
      · simp [failure?, Except.mapError]
      · have put := Table.get?_put w.blobs k key blob
        by_cases same : k = key <;> simp_all [failure?, Except.mapError, Table.has]

theorem has_proceeds {w w' : World σ} {plan : List Call} {made : List (Happening σ)}
    {failure : Option JobFailure} (h : Proceeds g job w plan made failure w') (key : String) :
    w'.blobs.has key = true ↔ w.blobs.has key = true ∨
      ∃ e ∈ made, (∃ c, e.call = .save c key) ∧ e.failure = none := by
  induction h with
  | done => simp
  | @next w _ _ call _ _ _ performed _ ih =>
      have step := shares.has_perform job call w key
      rw [performed] at step
      rw [ih, step]
      simp [or_assoc]
  | @stop w _ call _ _ performed =>
      have step := shares.has_perform job call w key
      rw [performed] at step
      rw [step]
      simp

end JobSetting.SharesMemory

namespace JobRun

variable {r : JobRun σ} (shares : r.setting.SharesMemory)
include shares

/-- A job adds a key to the store just if it writes under it. -/
theorem has_after (key : String) : r.after.world.blobs.has key = true ↔
    r.before.world.blobs.has key = true ∨ r.WritesUnder key := by
  obtain ⟨steps, ending, made, -⟩ := r.exists_makes
  have whole := made
  obtain ⟨place, failure, between, failure', opened, -, closed⟩ := made
  rw [shares.has_proceeds closed, shares.has_proceeds opened, or_assoc]
  refine or_congr_right ⟨?_, ?_⟩
  · rintro (⟨e, he, ⟨c, save⟩, -⟩ | ⟨e, he, ⟨c, save⟩, well⟩)
    · have none := JobSetting.not_save_steps opened he
      rw [save] at none
      cases none
    · exact ⟨steps, ending, whole, c, e, he, save, well⟩
  · rintro ⟨steps', ending', made', c, e, he, save, well⟩
    obtain ⟨rfl, rfl⟩ := whole.unique made'
    exact .inr ⟨e, he, ⟨c, save⟩, well⟩

theorem hit_iff {c : CacheSpec} (cache : r.job.cache = some c) (paths : c.paths ≠ [])
    (success : r.result.status = .success) :
    ∃ key, c.resolveKey r.before.world.files r.setting.project = .ok key ∧ r.result.cacheKey = some key ∧
      r.result.cacheHit = r.before.world.blobs.has key := by
  obtain ⟨-, ⟨result, ok, same⟩ | ⟨f, -, failed⟩⟩ := r.run_eq
  · have run : (r.setting.runJob r.job).run.run r.before = (.ok result, _) := Prod.ext ok rfl
    obtain ⟨-, found⟩ := JobSetting.of_runJob_ok run
    obtain ⟨key, restored, w, resolved, requested, told, hit⟩ := found c cache
    rw [shares.store, Store.restoreCache, if_neg (by simpa using paths)] at requested
    refine ⟨key, JobSetting.resolveKey_ok resolved, by rw [same, told], ?_⟩
    rw [same, hit]
    exact MemoryStore.hit_of_restore requested
  · rw [failed] at success
    cases success

theorem WritesUnder.earns {key : String} (writes : r.WritesUnder key) : r.Earns key := by
  obtain ⟨steps, ending, made, c, e, he, save, well⟩ := writes
  obtain ⟨steps', ending', made', recorded, stems⟩ := r.exists_makes
  obtain ⟨rfl, rfl⟩ := made.unique made'
  obtain ⟨place, failure, between, failure', opened, -, closed⟩ := made
  obtain ⟨cache, own⟩ := JobSetting.requests_key opened closed (fun _ cache _ => eq_key cache)
    (List.mem_append_right steps he) (by rw [save]; rfl)
  obtain ⟨c', cache', due, -⟩ := save_in_ending opened closed he (by rw [save]; rfl)
  cases cache.symm.trans cache'
  have asked := due
  rw [CacheSpec.saveDue, Bool.and_eq_true, c.asksSave_iff] at asked
  obtain ⟨excused, paths, policy⟩ := asked
  refine ⟨c, cache, paths, JobSetting.resolveKey_ok own, ?_⟩
  cases all : allWell steps with
  | true =>
      rw [all] at policy
      refine .inl ⟨?_, policy⟩
      -- all that was called went well, and the policy is known
      refine r.concludes.terminal.resolve_right fun failed => ?_
      obtain ⟨f, -, stems⟩ := stems failed
      rcases stems with ⟨e', he', stopped⟩ | ⟨e', he', stopped⟩ | ⟨c', word, cache', unknown, -⟩
      · have fine := List.all_eq_true.mp all e' he'
        rw [stopped] at fine
        cases fine
      · have none : r.setting.pruneCalls c = [] := by
          rw [JobSetting.pruneCalls, shares.store]
          rfl
        rw [JobSetting.closingCalls, cache] at closed
        dsimp only at closed
        rw [if_pos due, none, ite_self] at closed
        have same : e' = e := by
          cases closed with
          | stop => rw [List.mem_singleton.mp he, List.mem_singleton.mp he']
          | next _ rest =>
              cases rest
              rw [List.mem_singleton.mp he, List.mem_singleton.mp he']
        rw [same, well] at stopped
        cases stopped
      · cases cache.symm.trans cache'
        rw [unknown] at policy
        cases policy
  | false =>
      rw [all] at policy
      obtain ⟨e', he', bad⟩ : ∃ e' ∈ steps, e'.failure ≠ none := by
        simpa [allWell] using all
      obtain ⟨f, stopped⟩ := Option.ne_none_iff_exists'.mp bad
      obtain ⟨phase, failed, rfl⟩ :=
        f.isOfCommand_iff.mp ((allExcused_iff steps).mp excused e' he' f stopped).2
      exact .inr ⟨⟨phase, failed, recorded e' he' _ stopped⟩, policy⟩

end JobRun

/-- Jobs that leave their blobs to the next one. -/
inductive BlobChain : Table String Blob → List (JobRun σ) → Table String Blob → Prop
  | none (b : Table String Blob) : BlobChain b [] b
  | job {r : JobRun σ} {rest : List (JobRun σ)} {b : Table String Blob}
      (later : BlobChain r.after.world.blobs rest b) : BlobChain r.before.world.blobs (r :: rest) b

namespace BlobChain

variable {b b' : Table String Blob} {jobs : List (JobRun σ)}

theorem append {b'' : Table String Blob} {later : List (JobRun σ)} (first : BlobChain b jobs b')
    (second : BlobChain b' later b'') : BlobChain b (jobs ++ later) b'' := by
  induction first with
  | none => exact second
  | job _ ih => exact .job (ih second)

/-- What the store holds when a job starts was there at first, or an earlier job has written it. -/
theorem has_before (chain : BlobChain b jobs b') (shares : ∀ r ∈ jobs, r.setting.SharesMemory)
    (key : String) {earlier later : List (JobRun σ)} {r : JobRun σ} (split : jobs = earlier ++ r :: later) :
    r.before.world.blobs.has key = true ↔ b.has key = true ∨ ∃ w ∈ earlier, w.WritesUnder key := by
  induction chain generalizing earlier with
  | none => simp at split
  | @job first rest _ _ ih =>
      obtain ⟨own, others⟩ := List.forall_mem_cons.mp shares
      cases earlier with
      | nil =>
          cases split
          simp
      | cons w earlier =>
          cases split
          rw [ih others rfl, JobRun.has_after own key]
          simp [or_assoc]

end BlobChain

theorem JobChain.blobs {g : JobSetting σ} {s s' : Session σ} {jobs : List (JobRun σ)}
    (chain : JobChain g s jobs s') : BlobChain s.world.blobs jobs s'.world.blobs := by
  induction chain with
  | none idle =>
      rw [idle.world]
      exact .none _
  | job _ idle _ ih =>
      rw [← idle.world]
      exact .job ih

/-- A run with the store in memory, whose runner does not touch it. -/
structure RunCall.SharesMemory (call : RunCall σ) : Prop where
  store : call.options.store = some MemoryStore.store
  runner : ∀ line environment place, (call.options.runner line environment place).KeepsBlobs

theorem RunCall.SharesMemory.acts {call : RunCall σ} (shares : call.SharesMemory) {s s' : Session σ}
    {answer : Except Fault RunReport} {jobs : List (JobRun σ)} (acts : call.Acts s answer jobs s') :
    BlobChain s.world.blobs jobs s'.world.blobs ∧ ∀ r ∈ jobs, r.setting.SharesMemory := by
  obtain ⟨starts, stays⟩ :=
    RunOptions.setting_run shares.store call.pipeline call.event call.project s.world
  by_cases found : (MemoryStore.store : Store σ).StartsIn s.world.files call.project
  · obtain ⟨g, store, runner, set'⟩ := starts found
    cases acts with
    | unset unset => cases set'.symm.trans unset
    | set set chain told =>
        cases set'.symm.trans set
        refine ⟨chain.blobs, fun r hr => ?_⟩
        rw [chain.setting_eq r hr]
        exact ⟨store, runner ▸ shares.runner⟩
  · obtain ⟨f, unset'⟩ := stays found
    cases acts with
    | set set => cases unset'.symm.trans set
    | unset unset =>
        cases unset'.symm.trans unset
        exact ⟨.none _, by simp⟩

theorem Visits.blobs {visits : List (Visit σ)} (shares : ∀ v ∈ visits, v.call.SharesMemory)
    {s s' : Session σ} {trace : List (Except Fault RunReport × List (JobRun σ))}
    (performed : Visits visits s trace s') :
    BlobChain s.world.blobs (trace.flatMap (·.2)) s'.world.blobs ∧
      ∀ r ∈ trace.flatMap (·.2), r.setting.SharesMemory := by
  induction performed with
  | none => exact ⟨.none _, by simp⟩
  | next run acts _ ih =>
      obtain ⟨own, others⟩ := List.forall_mem_cons.mp shares
      obtain ⟨first, firstShares⟩ := own.acts acts
      obtain ⟨rest, restShares⟩ := ih others
      rw [List.flatMap_cons]
      exact ⟨first.append rest, List.forall_mem_append.mpr ⟨firstShares, restShares⟩⟩

/-- Any number of runs of any pipelines on one store in memory, which is empty at first. A job that succeeds
tells that its cache was there just if a job before it had written under its key. -/
theorem visits_hit {visits : List (Visit σ)} (shares : ∀ v ∈ visits, v.call.SharesMemory) {s : Session σ}
    (empty : s.world.blobs = []) :
    (∃ trace s', Visits visits s trace s') ∧ ∀ trace s', Visits visits s trace s' →
      (∀ run ∈ trace, ∀ report, run.1 = .ok report → ∀ x ∈ report.jobs, x.status ≠ .skipped →
        ∃ r ∈ run.2, r.result = x) ∧
      (∀ earlier r later, trace.flatMap (·.2) = earlier ++ r :: later → ∀ c, r.job.cache = some c →
        c.paths ≠ [] → r.result.status = .success → ∃ key,
          c.resolveKey r.before.world.files r.setting.project = .ok key ∧ r.result.cacheKey = some key ∧
            (r.result.cacheHit = true ↔ ∃ w ∈ earlier, w.WritesUnder key)) ∧
      ∀ w ∈ trace.flatMap (·.2), ∀ key, w.WritesUnder key → w.Earns key := by
  refine ⟨Visits.exists visits s, fun trace s' performed => ?_⟩
  obtain ⟨chain, jobs⟩ := performed.blobs shares
  refine ⟨performed.told, fun earlier r later split c cache paths success => ?_,
    fun w hw key writes => writes.earns (jobs w hw)⟩
  have own := jobs r (by rw [split]; simp)
  obtain ⟨key, resolved, told, hit⟩ := r.hit_iff own cache paths success
  refine ⟨key, resolved, told, ?_⟩
  rw [hit, chain.has_before jobs key split, empty]
  simp [Table.has, Table.get?]

/-- A visit that changes nothing before its run of a job with a cache, on the store in memory. -/
def cachingVisit : Visit Unit where
  change w := (w.files, w.own)
  call := { savingCall 0 with options := { (savingCall 0).options with store := some MemoryStore.store } }

theorem sharesMemory_cachingVisit : cachingVisit.call.SharesMemory := ⟨rfl, fun _ _ _ _ => rfl⟩

theorem visits_hit_twice : (∀ v ∈ [cachingVisit, cachingVisit], v.call.SharesMemory) ∧
    stockedWorld.blobs = [] ∧ ∃ trace s', Visits [cachingVisit, cachingVisit] ⟨stockedWorld, []⟩ trace s' ∧
      ∀ earlier r later, trace.flatMap (·.2) = earlier ++ r :: later → ∀ c, r.job.cache = some c →
        c.paths ≠ [] → r.result.status = .success → ∃ key,
          c.resolveKey r.before.world.files r.setting.project = .ok key ∧ r.result.cacheKey = some key ∧
            (r.result.cacheHit = true ↔ ∃ w ∈ earlier, w.WritesUnder key) := by
  have shares : ∀ v ∈ [cachingVisit, cachingVisit], v.call.SharesMemory := by
    simpa using sharesMemory_cachingVisit
  obtain ⟨⟨trace, s', performed⟩, hits⟩ := visits_hit shares (s := ⟨stockedWorld, []⟩) rfl
  exact ⟨shares, rfl, trace, s', performed, (hits trace s' performed).2.1⟩

end Conveyor
