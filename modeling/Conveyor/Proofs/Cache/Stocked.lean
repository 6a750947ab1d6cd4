import Conveyor.Proofs.Cache.Pairing

/-!
What the directories of a store hold after any requests, also where a request stops halfway, and whatever
else stands in them.
-/

namespace Conveyor

namespace FileTree

variable {t t' : FileTree} {l : Location}

theorem nodup_makeDirectories (once : t.entries.keys.Nodup) (l : Location) :
    (t.makeDirectories l).2.entries.keys.Nodup := by
  refine makeDirectories_keeps (P := fun t => t.entries.keys.Nodup) (fun t t' l made once => ?_) once l
  obtain ⟨place, -, -, rfl⟩ := makeDirectory_ok made
  exact Table.nodup_keys_put once place .directory

theorem nodup_replaceFile (once : t.entries.keys.Nodup) {c : Content} {m : Int}
    (h : t.replaceFile l c m = .ok t') : t'.entries.keys.Nodup := by
  obtain ⟨place, -, h⟩ := ok_of_bind_ok h
  split at h
  · cases h
  · cases h
    exact Table.nodup_keys_put once place _

/-- A directory is opened in one that is there, which changes nothing else. -/
theorem Opened.same (opened : t.Opened t' l) (wf : t.WellFormed)
    (parent : t.entryAt? l.dropLast = some .directory) {m : Location} (hm : m ≠ l) :
    t'.entryAt? m = t.entryAt? m := by
  rw [opened.view]
  split
  · rename_i above
    have above := prefix_dropLast above hm
    by_cases itself : m = l.dropLast
    · rw [itself, parent]
    · rw [wf.directory_of_prefix parent above itself]
  · rfl

end FileTree

namespace DirectoryStore

open FileTree

variable {σ : Type} {root : Location}

theorem nodup_putFile {w w' : World σ} (once : w.files.entries.keys.Nodup) {place : Location} {c : Content}
    {m : Int} {answer : Except Fault Unit} (run : (putFile place c m).run.run w = (answer, w')) :
    w'.files.entries.keys.Nodup := by
  rw [putFile] at run
  cases drafted : orFault (draftPlace place) (w.files.followParent (draftPlace place)) with
  | error f =>
      rw [run_bind_error (Action.run_ask_of drafted)] at run
      cases run
      exact once
  | ok draft =>
      rw [run_bind_ok (Action.run_ask_of drafted)] at run
      cases replaced : w.files.replaceFile place c m with
      | error r =>
          simp only [Action.change, Action.run_onFiles, replaced] at run
          cases run
          exact once
      | ok t =>
          rw [Action.run_change_ok replaced] at run
          cases run
          exact nodup_replaceFile once replaced

/-- A tree with a store, and what it holds in the directory with a name. Archives have any content and any
times and may lack a manifest, as manifests may lack an archive, and other files may stand anywhere. -/
structure Stocked (root : Location) (name : String) (t : FileTree) : Prop where
  wellFormed : t.WellFormed
  once : t.entries.keys.Nodup
  base : t.entryAt? root = some .directory
  directory : t.entryAt? (root ++ [name]) = none ∨ t.entryAt? (root ++ [name]) = some .directory
  shelf : Shelf t (root ++ [name])

theorem stocked_of_empty {t : FileTree} (wf : t.WellFormed) (once : t.entries.keys.Nodup)
    (base : t.entryAt? root = some .directory)
    (nothing : ∀ parts, parts ≠ [] → t.entryAt? (root ++ parts) = none) (name : String) :
    Stocked root name t := by
  have below (file : String) : t.entryAt? (root ++ [name] ++ [file]) = none := by
    rw [List.append_assoc]
    exact nothing _ (by simp)
  refine ⟨wf, once, base, .inl (nothing _ (by simp)), fun file e there => ?_, fun file => ?_⟩
  · cases (below _).symm.trans there
  · rw [below]
    simp

namespace Stocked

section Tree

variable {t t' : FileTree} {name other : String} (stocked : Stocked root name t)
include stocked

theorem congr (wf : t'.WellFormed) (once : t'.entries.keys.Nodup)
    (same : ∀ parts, t'.entryAt? (root ++ parts) = t.entryAt? (root ++ parts)) : Stocked root name t' := by
  have base := same []
  rw [List.append_nil] at base
  refine ⟨wf, once, base.trans stocked.base, ?_, stocked.shelf.of_less fun c => .inl ?_⟩
  · rw [same]
    exact stocked.directory
  · rw [List.append_assoc]
    exact same _

theorem opened (made : t.makeDirectories (root ++ [other]) = (.ok (), t'))
    (opened : t.Opened t' (root ++ [other])) : Stocked root name t' := by
  have once := nodup_makeDirectories stocked.once (root ++ [other])
  rw [made] at once
  have same {l : Location} (different : l ≠ root ++ [other]) : t'.entryAt? l = t.entryAt? l :=
    opened.same stocked.wellFormed (by rw [List.dropLast_concat, stocked.base]) different
  refine ⟨opened.wellFormed, once, (same (by simp)).trans stocked.base, ?_,
    stocked.shelf.of_less fun c => .inl (same (by simp))⟩
  by_cases itself : root ++ [name] = root ++ [other]
  · exact .inr (itself ▸ opened.itself)
  · rw [same itself]
    exact stocked.directory

theorem takenOut {removed : List Stored} (taken : TakenOut t t' (root ++ [other]) removed)
    (once : t'.entries.keys.Nodup) : Stocked root name t' := by
  refine ⟨taken.wellFormed, once, taken.base.trans stocked.base, ?_,
    stocked.shelf.of_less fun c => taken.or_none _⟩
  rcases taken.or_none (root ++ [name]) with same | gone
  · rw [same]
    exact stocked.directory
  · exact .inl gone

/-- A file is written in some directory. If it is an archive, its name leaves room for its manifest. -/
theorem written {file : String} {c : Content} (written : t.Written t' (root ++ [other] ++ [file]) c)
    (once : t'.entries.keys.Nodup)
    (room : ∀ n, file = n ++ artifactEnding → IsName (n ++ manifestEnding)) : Stocked root name t' := by
  have above {l : Location} (short : l.length ≤ root.length + 1) : t'.entryAt? l = t.entryAt? l := by
    refine written.others l fun same => ?_
    simp [same] at short
  refine ⟨written.wellFormed, once, (above (by simp)).trans stocked.base, ?_,
    stocked.shelf.written written fun n same => room n ?_⟩
  · rw [above (by simp)]
    exact stocked.directory
  · exact List.singleton_injective (List.append_inj_right' same rfl)

end Tree

section Run

variable {w w' : World σ} {name key : String}

theorem run_openDirectory (stocked : Stocked root name w.files)
    (home : Stocked root (StoredName.ofKey key).directory w.files) :
    Stocked root name ((openDirectory root (StoredName.ofKey key).directory).run.run w).2.files := by
  rcases run_openDirectory_cases home.wellFormed home.base home.directory with
    ⟨t, made, run, opened, -⟩ | ⟨f, run⟩
  · rw [run]
    exact stocked.opened made opened
  · rw [run]
    exact stocked

/-- The files of a key are put in place, or just the first of them. -/
theorem put (stocked : Stocked root name w.files)
    (home : Stocked root (StoredName.ofKey key).directory w.files)
    (there : w.files.entryAt? (keyDirectory root key) = some .directory)
    (draft : IsName ((StoredName.ofKey key).artifact ++ draftEnding)) {artifact manifest : Content}
    {now : Int} {answer : Except Fault Unit}
    (run : (do putFile (artifactPlace root key) artifact now
               putFile (manifestPlace root key) manifest now : Action σ Unit).run.run w = (answer, w')) :
    Stocked root name w'.files := by
  rw [artifactPlace_eq, manifestPlace_eq] at run
  have names := StoredName.isName_of_draft draft
  obtain ⟨t, first, written⟩ :=
    run_putFile home.wellFormed there names.1 draft (home.shelf.artifacts _) artifact now
  have room (n : String) (same : (StoredName.ofKey key).artifact = n ++ artifactEnding) :
      IsName (n ++ manifestEnding) := by
    rw [← (String.append_left_inj _).mp same]
    exact names.2
  have once := nodup_putFile home.once first
  have stocked := stocked.written written once room
  have home := home.written written once room
  have there : t.entryAt? (keyDirectory root key) = some .directory :=
    (written.others _ (by simp)).trans there
  rw [run_bind_ok first] at run
  have once := nodup_putFile (w := { w with files := t }) once run
  rcases run_askDraft_cases (w := { w with files := t }) home.wellFormed there key manifestEnding
    (by decide) (by decide) with ⟨-, draft⟩ | ⟨f, refused⟩
  · obtain ⟨t', second, written⟩ := run_putFile (w := { w with files := t }) home.wellFormed there
      names.2 draft (home.shelf.manifests _) manifest now
    cases run.symm.trans second
    exact stocked.written written once fun n same => absurd same.symm (artifact_ne_manifest _ _)
  · rw [← StoredName.manifest] at refused
    rw [putFile, run_bind_error refused] at run
    cases run
    exact stocked

/-- A save leaves the store in order, wherever it stops. -/
theorem saved (stocked : Stocked root name w.files)
    (home : Stocked root (StoredName.ofKey key).directory w.files) {paths : List String}
    {project : Location} {answer : Except Fault Unit}
    (run : (save root key paths project).run.run w = (answer, w')) :
    Stocked root name w'.files := by
  rw [save_eq] at run
  rcases run_gather_cases home.wellFormed home.base home.directory
      (P := fun t => Stocked root name t ∧ Stocked root (StoredName.ofKey key).directory t) ⟨stocked, home⟩
      (fun _ made opened => ⟨stocked.opened made opened, home.opened made opened⟩) paths project with
    ⟨f, w₁, failed, stays, -⟩ | ⟨t, selected, members, done, ⟨stays, home⟩, opened, -, draft, -⟩
  · rw [run_bind_error failed] at run
    cases run
    exact stays
  · rw [run_bind_ok done, deposit, run_bind_ok (run_modify _ _), run_bind_ok (run_get _)] at run
    dsimp only at run
    have ticked {n : String} (stays : Stocked root n t) : Stocked root n { t with clock := t.clock + 1 } :=
      stays.congr (stays.wellFormed.tick _) stays.once fun _ => rfl
    exact (ticked stays).put (w := { w with files := { t with clock := t.clock + 1 } }) (ticked home)
      opened.itself draft run

theorem pruned (stocked : Stocked root name w.files) {scope : Option String}
    (home : Stocked root (scopeDirectory scope) w.files) {keep : Int} {answer : Except Fault Unit}
    (run : (prune root scope keep).run.run w = (answer, w')) : Stocked root name w'.files := by
  rw [prune_eq] at run
  rw [scopeDirectory_eq] at home run
  generalize scopedKey scope "" = key at home run
  rcases makeDirectories_cases home.wellFormed home.base home.directory with
    ⟨t, made, opened, -⟩ | ⟨-, f, refused⟩
  · obtain ⟨t', kept, removed, prunes, taken, fewer, -⟩ :=
      (home.opened made opened).shelf.run_pruneDirectory made opened.wellFormed opened.itself keep
    cases run.symm.trans prunes
    have stays := stocked.opened made opened
    exact stays.takenOut taken (stays.once.sublist (fewer.map _))
  · have stops := Action.run_onFiles (·.makeDirectories (keyDirectory root key)) w
    rw [refused] at stops
    cases run.symm.trans (run_bind_error stops)
    exact stocked

end Run

end Stocked

/-- What happens to a world with a store: it is saved to, asked and pruned, whatever it answers, and the
world may change elsewhere. What a request extracts spares the store. -/
inductive Serves (root : Location) : World σ → World σ → Prop
  | elsewhere {w w' : World σ} (wf : w'.files.WellFormed) (once : w'.files.entries.keys.Nodup)
      (same : ∀ parts, w'.files.entryAt? (root ++ parts) = w.files.entryAt? (root ++ parts)) :
      Serves root w w'
  | save {w w' : World σ} {key : String} {paths : List String} {project : Location}
      {answer : Except Fault Unit} (run : (save root key paths project).run.run w = (answer, w')) :
      Serves root w w'
  | restore {w w' : World σ} {key : String} {project : Location} {answer : Except Fault Restored}
      (run : (restore root key project).run.run w = (answer, w')) (wf : w'.files.WellFormed)
      (once : w'.files.entries.keys.Nodup) (spares : ∀ parts, w'.files.entryAt? (root ++ parts) =
        ((openDirectory root (StoredName.ofKey key).directory).run.run w).2.files.entryAt?
          (root ++ parts)) : Serves root w w'
  | prune {w w' : World σ} {scope : Option String} {keep : Int} {answer : Except Fault Unit}
      (run : (prune root scope keep).run.run w = (answer, w')) : Serves root w w'

theorem Serves.stocked {w w' : World σ} (step : Serves root w w')
    (stocked : ∀ key, Stocked root (StoredName.ofKey key).directory w.files) (key : String) :
    Stocked root (StoredName.ofKey key).directory w'.files := by
  cases step with
  | elsewhere wf once same => exact (stocked key).congr wf once same
  | save run => exact (stocked key).saved (stocked _) run
  | restore _ wf once spares => exact ((stocked key).run_openDirectory (stocked _)).congr wf once spares
  | prune run => exact (stocked key).pruned (scopeDirectory_eq _ ▸ stocked _) run

/-- Whatever happens to a store, its directories stay in order. -/
theorem stocked_of_serves {w w' : World σ} (steps : Relation.ReflTransGen (Serves root) w w')
    (stocked : ∀ key, Stocked root (StoredName.ofKey key).directory w.files) :
    ∀ key, Stocked root (StoredName.ofKey key).directory w'.files := by
  induction steps with
  | refl => exact stocked
  | tail _ step ih => exact step.stocked ih

end DirectoryStore

end Conveyor
