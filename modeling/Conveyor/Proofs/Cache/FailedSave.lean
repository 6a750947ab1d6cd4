import Conveyor.Proofs.Cache.Beside
import Conveyor.Proofs.Cache.Return
import Conveyor.Proofs.Run.Retention

/-!
A save that fails before it puts anything in its place. The store in memory is not changed at all; beside
a store in a directory nothing is new but directories on the way to that of the key, however far the
archive had come. So a job whose save fails keeps what was saved before.
-/

namespace Conveyor

variable {σ : Type}

namespace FileTree

theorem Gains.file_iff {t t' : FileTree} {new : Location → Prop} (gains : t.Gains t' new) (l : Location)
    (c : Content) (m : Int) : t'.entryAt? l = some (.file c m) ↔ t.entryAt? l = some (.file c m) := by
  rcases gains.view l with same | ⟨missing, made, -⟩
  · rw [same]
  · simp [missing, made]

/-- Where something stands, no directory is made. -/
theorem WellFormed.makeDirectories_there {t : FileTree} (wf : t.WellFormed) {l : Location} {e : Entry}
    (there : t.entryAt? l = some e) : (t.makeDirectories l).2 = t := by
  rw [makeDirectories, wf.makeDirectory_old there]
  split <;> simp_all

end FileTree

namespace DirectoryStore

open FileTree

/-- All files are as they were, and so is every blob; new are only directories, where a path on the way to
the directory of a key leads. -/
structure Spares (w w' : World σ) (root : Location) (key : String) : Prop where
  blobs : w'.blobs = w.blobs
  own : w'.own = w.own
  files : ∀ l c m, w'.files.entryAt? l = some (.file c m) ↔ w.files.entryAt? l = some (.file c m)
  gains : w.files.Gains w'.files (w'.files.LeadsAbove (keyDirectory root key))
  /-- In a store at its real place, whatever stands for a key stands there as before. -/
  keys : w.files.WellFormed → (∀ c ∈ root, IsPlain c) → w.files.LinkFree root → ∀ other,
    w'.files.entryAt? (artifactPlace root other) = w.files.entryAt? (artifactPlace root other) ∧
      w'.files.entryAt? (manifestPlace root other) = w.files.entryAt? (manifestPlace root other)

theorem Spares.saved_iff {w w' : World σ} {root : Location} {key : String} (spares : Spares w w' root key)
    (x : Saved) : x.Holds w' ↔ x.Holds w := by
  cases x with
  | file place content => exact exists_congr fun m => spares.files place content m
  | blob name blob =>
      show w'.blobs.get? name = some blob ↔ w.blobs.get? name = some blob
      rw [spares.blobs]

section Opening

variable {t : FileTree} {root : Location} {key : String}

/-- Opening the directory of a key below a real place changes nothing but what is on the way there. -/
theorem makeDirectories_others (wf : t.WellFormed) (plain : ∀ c ∈ root, IsPlain c) (free : t.LinkFree root)
    {l : Location} (beside : ¬ l <+: keyDirectory root key) :
    (t.makeDirectories (keyDirectory root key)).2.entryAt? l = t.entryAt? l := by
  have gains := t.makeDirectories_gains (keyDirectory root key)
  rcases gains.view l with same | ⟨missing, made, leads⟩
  · exact same
  · cases there : t.entryAt? (keyDirectory root key) with
    | some e =>
        rw [wf.makeDirectories_there there] at made
        cases missing.symm.trans made
    | none =>
        have whole : t.LinkFree (keyDirectory root key) := free.concat_of_none there
        have plain' : ∀ c ∈ keyDirectory root key, IsPlain c :=
          isPlain_append plain (StoredName.isComponent_directory key).plain
        exact absurd (leads.prefix_of_linkFree plain' ((gains.sameLinks.linkFree_iff _).mp whole)) beside

end Opening

section Gathering

variable {w w' : World σ} {root project : Location} {key : String} {paths : List String}

theorem spares_of_files {t : FileTree}
    (opens : t = w.files ∨ t = (w.files.makeDirectories (keyDirectory root key)).2) :
    Spares w { w with files := t } root key := by
  have gains : w.files.Gains t (t.LeadsAbove (keyDirectory root key)) := by
    rcases opens with rfl | rfl
    · exact .refl _ _
    · exact w.files.makeDirectories_gains _
  refine ⟨rfl, rfl, gains.file_iff, gains, fun wf plain free other => ?_⟩
  rcases opens with rfl | rfl
  · exact ⟨rfl, rfl⟩
  · rw [artifactPlace_eq, manifestPlace_eq]
    exact ⟨makeDirectories_others wf plain free (not_above_keyDirectory root key other _),
      makeDirectories_others wf plain free (not_above_keyDirectory root key other _)⟩

/-- Whatever ends the gathering of a save, the stores are spared. -/
theorem spares_of_gather {f : Fault} (failed : (gather root key paths project).run.run w = (.error f, w')) :
    Spares w w' root key := by
  rw [gather_eq] at failed
  rcases run_approach w root project key with
    ⟨f', t, run, opens⟩ | ⟨tree, draft, t, run, -, made, -⟩
  · cases failed.symm.trans (run_bind_error run)
    exact spares_of_files opens
  · have opens : t = (w.files.makeDirectories (keyDirectory root key)).2 := by rw [made]
    rw [run_bind_ok run] at failed
    have same : w' = { w with files := t } := by
      dsimp only at failed
      rw [Action.run_ask_bind] at failed
      split at failed
      · rw [Action.run_ask_bind] at failed
        split at failed
        · cases failed
        · exact (Prod.mk.inj failed).2.symm
      · exact (Prod.mk.inj failed).2.symm
    rw [same]
    exact spares_of_files (.inr opens)

/-- So are they where the archive was in the making, however far it had come. -/
theorem spares_of_gatherAside (rooted : w.files.Rooted) {f : Fault}
    (failed : (gatherAside root key paths project).run.run w = (.error f, w')) : Spares w w' root key := by
  rw [gatherAside] at failed
  rcases run_approach w root project key with
    ⟨f', t, run, opens⟩ | ⟨tree, draft, t, run, -, made, -⟩
  · cases failed.symm.trans (run_bind_error run)
    exact spares_of_files opens
  · have opens : t = (w.files.makeDirectories (keyDirectory root key)).2 := by rw [made]
    rw [run_bind_ok run] at failed
    dsimp only at failed
    have rooted' : t.Rooted := opens ▸ rooted.makeDirectories _
    rcases run_makeDraft (w := { w with files := t }) rooted' (draftPlace (artifactPlace root key)) draft
      (saveLooks tree paths) with ⟨f', stops⟩ | ⟨found, done, -⟩
    · cases failed.symm.trans (run_bind_error stops)
      exact spares_of_files (.inr opens)
    · cases failed.symm.trans (run_bind_ok done)

theorem save_of_gather_error {f : Fault}
    (failed : (gather root key paths project).run.run w = (.error f, w')) :
    (save root key paths project).run.run w = (.error f, w') := by
  rw [save_eq]
  exact run_bind_error failed

end Gathering

end DirectoryStore

/-- A save in memory that fails changes nothing. -/
theorem MemoryStore.world_of_save_error {w w' : World σ} {key : String} {paths : List String}
    {project : Location} {f : Fault} (failed : (save key paths project).run.run w = (.error f, w')) :
    w' = w := by
  rw [save, Action.run_ask_bind] at failed
  split at failed
  · rw [Action.run_ask_bind] at failed
    split at failed
    · cases failed
    · exact (Prod.mk.inj failed).2.symm
  · exact (Prod.mk.inj failed).2.symm

section Job

variable {g : JobSetting σ} {job : Job}

/-- The save of a job fails, in a directory while its files are gathered. -/
def JobSetting.SaveFails (g : JobSetting σ) (e : Happening σ) : Prop :=
  ∃ c key, e.call = .save c key ∧
    (g.store = MemoryStore.store ∧ e.failure ≠ none ∨
      ∃ root f w', g.store = DirectoryStore.store root ∧
        (DirectoryStore.gather root key c.paths g.project).run.run e.before = (.error f, w'))

/-- After a save that fails a job makes no other call. -/
theorem JobSetting.ending_of_failed_save {w w' : World σ} {key : String} {steps ending : List (Happening σ)}
    {failure : Option JobFailure}
    (closed : Proceeds g job w (g.closingCalls job key steps) ending failure w')
    {e : Happening σ} (he : e ∈ ending) {c : CacheSpec} {k : String} (call : e.call = .save c k)
    {f : JobFailure} (failed : e.failure = some f) : ending = [e] ∧ w' = e.after := by
  unfold closingCalls at closed
  split at closed
  · split at closed
    · cases closed with
      | stop =>
          obtain rfl := List.mem_singleton.mp he
          exact ⟨rfl, rfl⟩
      | next performed rest =>
          rcases List.mem_cons.mp he with rfl | later
          · cases failed
          · have planned := rest.mem_plan later
            split at planned
            · obtain ⟨keep, prunes⟩ := mem_pruneCalls planned
              cases call.symm.trans prunes
            · cases planned
    · cases closed
      cases he
  · cases closed
    cases he

/-- A save that fails leaves what was saved, and how it fails is told. -/
theorem JobSetting.SaveFails.spares {e : Happening σ} (fails : g.SaveFails e)
    (performed : g.perform job e.call e.before = (e.failure, e.after)) :
    (∃ f, e.failure = some (.ofFault f)) ∧ ∀ x : Saved, x.Holds e.after ↔ x.Holds e.before := by
  obtain ⟨c, key, call, fails⟩ := fails
  rw [call] at performed
  have performed : (g.store.save key c.paths g.project).outcome e.before = (e.failure, e.after) := performed
  rcases fails with ⟨memory, failed⟩ | ⟨root, f, w', directory, gathering⟩
  · rw [memory] at performed
    match run : (MemoryStore.store.save key c.paths g.project).run.run e.before with
    | (.ok (), w') =>
      exact absurd (Prod.mk.inj ((Action.outcome_ok run).symm.trans performed)).1.symm failed
    | (.error f, w') =>
        obtain ⟨ended, world⟩ := Prod.mk.inj ((Action.outcome_error run).symm.trans performed)
        rw [← world, MemoryStore.world_of_save_error run]
        exact ⟨⟨f, ended.symm⟩, fun x => Iff.rfl⟩
  · rw [directory] at performed
    have run : ((DirectoryStore.store root).save key c.paths g.project).run.run e.before = (.error f, w') :=
      DirectoryStore.save_of_gather_error gathering
    obtain ⟨ended, world⟩ := Prod.mk.inj ((Action.outcome_error run).symm.trans performed)
    rw [← world]
    exact ⟨⟨f, ended.symm⟩, (DirectoryStore.spares_of_gather gathering).saved_iff⟩

end Job

/-- A save that fails leaves the stores as they were. In memory nothing changes. In a directory, where the
files could not be gathered, all files are as before, at every point at which the archive in the making may
stop; and where no look at the files sees that archive, making it aside comes to the same as having it at
once, as it does beside a project without links. A job makes no call after such a save, so what was saved
before it is there at the end. -/
theorem failed_save_spares_stores :
    (∀ (w w' : World σ) (key : String) (paths : List String) (project : Location) (f : Fault),
      (MemoryStore.save key paths project).run.run w = (.error f, w') → w' = w) ∧
    (∀ (w w' : World σ) (root : Location) (key : String) (paths : List String) (project : Location)
        (f : Fault),
      (DirectoryStore.gather root key paths project).run.run w = (.error f, w') →
      (DirectoryStore.save root key paths project).run.run w = (.error f, w') ∧
        DirectoryStore.Spares w w' root key) ∧
    (∀ (w : World σ) (root : Location) (key : String) (paths : List String) (project : Location),
      w.files.Rooted →
      (∀ f w', (DirectoryStore.gatherAside root key paths project).run.run w = (.error f, w') →
        (DirectoryStore.saveAside root key paths project).run.run w = (.error f, w') ∧
          DirectoryStore.Spares w w' root key) ∧
      ((∀ tree t draft, w.files.resolve project = .ok tree →
          w.files.makeDirectories (DirectoryStore.keyDirectory root key) = (.ok (), t) →
          t.followParent (DirectoryStore.draftPlace (DirectoryStore.artifactPlace root key)) = .ok draft →
          DirectoryStore.Unseen t draft (DirectoryStore.saveLooks tree paths)) →
        (DirectoryStore.saveAside root key paths project).run.run w =
          (DirectoryStore.save root key paths project).run.run w)) ∧
    (∀ (w : World σ) (root : Location) (key : String) (paths : List String) (project tree : Location),
      DirectoryStore.Beside w.files root project key tree →
        (DirectoryStore.saveAside root key paths project).run.run w =
          (DirectoryStore.save root key paths project).run.run w) ∧
    ∀ r : JobRun σ, ∃ steps ending, r.Calls steps ending ∧ ∀ e ∈ ending, r.setting.SaveFails e →
      ending = [e] ∧ (∃ f, e.failure = some (.ofFault f)) ∧
        ∀ x : Saved, x.Holds r.after.world ↔ x.Holds e.before := by
  refine ⟨fun _ _ _ _ _ _ => MemoryStore.world_of_save_error, fun _ _ _ _ _ _ _ failed =>
    ⟨DirectoryStore.save_of_gather_error failed, DirectoryStore.spares_of_gather failed⟩,
    fun _ _ _ _ _ rooted => ⟨fun _ _ failed => ⟨run_bind_error failed,
      DirectoryStore.spares_of_gatherAside rooted failed⟩, DirectoryStore.run_saveAside rooted⟩,
    fun _ _ _ paths _ _ beside => beside.run_saveAside paths, fun r => ?_⟩
  obtain ⟨steps, ending, calls⟩ := r.exists_calls
  refine ⟨steps, ending, calls, fun e he fails => ?_⟩
  obtain ⟨place, failure, between, failure', opened, closed⟩ := calls
  obtain ⟨⟨f, failed⟩, spares⟩ := fails.spares (closed.performed e he)
  obtain ⟨c, key, call, -⟩ := fails
  obtain ⟨last, world⟩ := JobSetting.ending_of_failed_save closed he call failed
  exact ⟨last, ⟨f, failed⟩, world ▸ spares⟩

section Sample

open DirectoryStore

/-- A path that holds the character that ends paths stops every selection. -/
theorem selection_nul (t : FileTree) (project : Location) {paths : List String} (mem : "\x00" ∈ paths) :
    ∃ f, t.selection project paths = .error f := by
  refine FileTree.selection_fails_iff.mpr ?_
  cases resolved : t.resolve project with
  | error f => exact ⟨f, .inl resolved⟩
  | ok real =>
      refine ⟨.nulInPath, .inr ⟨real, resolved, _, mem, .unresolved ?_⟩⟩
      have parts : Path.ofText "\x00" = ⟨"", ["\x00"]⟩ := rfl
      rw [parts, FileTree.resolve, if_pos]
      simp [Location.ofPath, Path.isAbsolute]

theorem gather_nul (w : World σ) (root project : Location) (key : String) (paths : List String)
    (mem : "\x00" ∈ paths) : ∃ f w', (gather root key paths project).run.run w = (.error f, w') := by
  match run : (gather root key paths project).run.run w with
  | (.error f, w') => exact ⟨f, w', rfl⟩
  | (.ok found, w') =>
      rw [gather_eq] at run
      obtain ⟨⟨tree, draft⟩, w₁, -, run⟩ := run_ok_of_bind_ok run
      obtain ⟨selected, w₂, asked, -⟩ := run_ok_of_bind_ok run
      obtain ⟨f, refused⟩ := selection_nul w₁.files tree mem
      cases asked.symm.trans (Action.run_ask_of refused)

theorem beside_stockedTree : Beside stockedTree ["c"] ["p"] "b" ["p"] where
  ready := ready_stockedTree
  unmade := by
    have place : draftPlace ["c", "_", "b.tar.gz"] = ["c", "_", "b.tar.gz" ++ draftEnding] := rfl
    rw [places_b.2.1, place]
    rfl
  real := wellFormed_stockedTree.resolve_directory rfl
  directory := rfl
  noLinks := home_stockedTree.noLinks
  apart := ⟨by decide, by decide⟩

/-- An archive is still there after a save under its key that fails at its second path; and a save that
makes its archive aside fails at such a path just so. -/
theorem failed_save_spares_archive :
    (∃ members w' w'' f,
      (save ["cache"] "k" ["d"] ["project"]).run.run linkedWorld = (.ok (), w') ∧
        w'.files.HasFile (artifactPlace ["cache"] "k") (.archive members) ∧
        (save ["cache"] "k" ["real.txt", "\x00"] ["project"]).run.run w' = (.error f, w'') ∧
        w''.files.HasFile (artifactPlace ["cache"] "k") (.archive members)) ∧
    ∃ f w', (saveAside ["c"] "b" ["f", "\x00"] ["p"]).run.run stockedWorld = (.error f, w') := by
  constructor
  · obtain ⟨w', saved⟩ := save_linkedWorld
    obtain ⟨t, selected, members, -, -, -, -, stored⟩ := Ready.packed_of_save (w := linkedWorld)
      ready_linkedTree apart_linkedTree rfl noBackslash_linkedTree saved
    obtain ⟨f, w'', gathering⟩ :=
      gather_nul w' ["cache"] ["project"] "k" ["real.txt", "\x00"] (by simp)
    obtain ⟨failed, spares⟩ := failed_save_spares_stores.2.1 _ _ _ _ _ _ _ gathering
    obtain ⟨m, there⟩ := stored.artifact
    exact ⟨members, w', w'', f, saved, stored.artifact, failed, m, (spares.files _ _ _).mpr there⟩
  · obtain ⟨f, w', gathering⟩ := gather_nul stockedWorld ["c"] ["p"] "b" ["f", "\x00"] (by simp)
    have same := failed_save_spares_stores.2.2.2.1 stockedWorld ["c"] "b" ["f", "\x00"] ["p"] ["p"]
      beside_stockedTree
    exact ⟨f, w', same.trans (save_of_gather_error gathering)⟩

end Sample

end Conveyor
