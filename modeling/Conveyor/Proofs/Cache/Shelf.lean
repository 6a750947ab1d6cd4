import Conveyor.Proofs.Cache.Overwrite
import Conveyor.Proofs.Cache.Retention

/-!
What a directory of a store may hold, and what is left in it when archives are taken out with their
manifests.
-/

namespace Conveyor.DirectoryStore

open FileTree

variable {σ : Type} {root directory : Location} {t t' : FileTree}

/-- The places of an archive and of its manifest. -/
def IsFileOf (directory : Location) (s : Stored) (l : Location) : Prop :=
  l = directory ++ [s.name ++ artifactEnding] ∨ l = directory ++ [s.name ++ manifestEnding]

theorem IsFileOf.name_eq {s s' : Stored} {l : Location} (h : IsFileOf directory s l)
    (h' : IsFileOf directory s' l) : s.name = s'.name := by
  rcases h with rfl | rfl <;> rcases h' with same | same <;>
    have same := List.singleton_injective (List.append_cancel_left same)
  · exact (String.append_left_inj _).mp same
  · exact absurd same (artifact_ne_manifest _ _)
  · exact absurd same.symm (artifact_ne_manifest _ _)
  · exact (String.append_left_inj _).mp same

theorem IsFileOf.dropLast_eq {s : Stored} {l : Location} (h : IsFileOf directory s l) :
    l.dropLast = directory := by
  rcases h with rfl | rfl <;> exact List.dropLast_concat

theorem IsFileOf.ne_directory {s : Stored} {l : Location} (h : IsFileOf directory s l) : l ≠ directory := by
  rcases h with rfl | rfl <;> simp

theorem isFileOf_artifactPlace (root : Location) (key : String) (m : Int) :
    IsFileOf (keyDirectory root key) ⟨(StoredName.ofKey key).name, m⟩ (artifactPlace root key) :=
  .inl (artifactPlace_eq root key)

theorem isFileOf_manifestPlace (root : Location) (key : String) (m : Int) :
    IsFileOf (keyDirectory root key) ⟨(StoredName.ofKey key).name, m⟩ (manifestPlace root key) :=
  .inr (manifestPlace_eq root key)

/-- What a directory of a store may hold. Archives are files, and no manifest is a directory. A name under
which an archive can be written leaves room for that of its manifest, since the draft has a longer one. -/
structure Shelf (t : FileTree) (directory : Location) : Prop where
  archives : ∀ name e, t.entryAt? (directory ++ [name ++ artifactEnding]) = some e →
    (∃ c m, e = .file c m) ∧ IsName (name ++ manifestEnding)
  manifests : ∀ name, t.entryAt? (directory ++ [name ++ manifestEnding]) ≠ some .directory

theorem Shelf.artifacts (shelf : Shelf t directory) (name : String) :
    t.entryAt? (directory ++ [name ++ artifactEnding]) ≠ some .directory := by
  intro stands
  obtain ⟨⟨c, m, file⟩, -⟩ := shelf.archives name _ stands
  cases file

/-- An archive stands in a directory, with its time of change. -/
def Archived (t : FileTree) (directory : Location) (s : Stored) : Prop :=
  ∃ c, t.entryAt? (directory ++ [s.name ++ artifactEnding]) = some (.file c s.modified)

theorem Archived.unique {s s' : Stored} (h : Archived t directory s) (h' : Archived t directory s')
    (name : s.name = s'.name) : s = s' := by
  obtain ⟨n, m⟩ := s
  obtain ⟨n', m'⟩ := s'
  obtain rfl : n = n' := name
  obtain ⟨c, there⟩ := h
  obtain ⟨c', there'⟩ := h'
  cases there.symm.trans there'
  rfl

section Listing

variable (wf : t.WellFormed)
include wf

theorem Archived.modifiedAt {s : Stored} (h : Archived t directory s) :
    modifiedAt t (directory ++ [s.name ++ artifactEnding]) = .ok (some s.modified) := by
  obtain ⟨c, there⟩ := h
  rw [DirectoryStore.modifiedAt, wf.stat_eq there (by simp)]

theorem storedAmong_of_archived {names : List String}
    (h : ∀ name ∈ names, ∃ m, Archived t directory ⟨name, m⟩) :
    ∃ found, storedAmong t directory names = .ok found ∧ found.map (·.name) = names ∧
      ∀ s ∈ found, Archived t directory s := by
  induction names with
  | nil => exact ⟨[], rfl, rfl, by simp⟩
  | cons name rest ih =>
      obtain ⟨⟨m, first⟩, others⟩ := List.forall_mem_cons.mp h
      obtain ⟨found, listed, named, archived⟩ := ih others
      refine ⟨⟨name, m⟩ :: found, ?_, by rw [List.map_cons, named],
        List.forall_mem_cons.mpr ⟨first, archived⟩⟩
      rw [storedAmong, first.modifiedAt wf, listed]
      rfl

/-- All archives of a directory are found, with their times. -/
theorem Shelf.storedIn (shelf : Shelf t directory) (there : t.entryAt? directory = some .directory) :
    ∃ found, storedIn t directory = .ok found ∧ found.map (·.name) = artifactNames t directory ∧
      ∀ s, s ∈ found ↔ Archived t directory s := by
  have listed (name : String) : name ∈ artifactNames t directory ↔ ∃ m, Archived t directory ⟨name, m⟩ := by
    rw [mem_artifactNames wf there]
    constructor
    · rintro ⟨e, stands⟩
      obtain ⟨⟨c, m, rfl⟩, -⟩ := shelf.archives name e stands
      exact ⟨m, c, stands⟩
    · rintro ⟨m, c, stands⟩
      exact ⟨_, stands⟩
  obtain ⟨found, answered, named, archived⟩ := storedAmong_of_archived wf fun name => (listed name).mp
  refine ⟨found, answered, named, fun s => ⟨archived s, fun stands => ?_⟩⟩
  have among : s.name ∈ found.map (·.name) := by
    rw [named]
    exact (listed s.name).mpr ⟨s.modified, stands⟩
  obtain ⟨s', found', name⟩ := List.mem_map.mp among
  rwa [stands.unique (archived s' found') name.symm]

theorem Shelf.isName_files (shelf : Shelf t directory) {s : Stored} (archived : Archived t directory s) :
    IsName (s.name ++ artifactEnding) ∧ IsName (s.name ++ manifestEnding) := by
  obtain ⟨c, stands⟩ := archived
  exact ⟨wf.named _ _ stands _ (by simp), (shelf.archives _ _ stands).2⟩

end Listing

/-- What stands at a place in a directory is taken away, if it is no directory. -/
theorem run_removeIfThere {w : World σ} (wf : w.files.WellFormed) {l : Location} (names : ∀ c ∈ l, IsName c)
    (parent : w.files.entryAt? l.dropLast = some .directory) (old : w.files.entryAt? l ≠ some .directory) :
    ∃ t, (removeIfThere l).run.run w = (.ok (), { w with files := t }) ∧ t.WellFormed ∧
      ∀ m, t.entryAt? m = if m = l then none else w.files.entryAt? m := by
  unfold removeIfThere
  cases there : w.files.entryAt? l with
  | none =>
      have missing : w.files.removeFile l = .error .notFound := by
        simp only [removeFile, wf.followParent_eq names parent, bind, Except.bind, there]
        rfl
      refine ⟨w.files, Action.run_change_ok (by rw [missing]), wf, fun m => ?_⟩
      split
      · rename_i same
        rw [same, there]
      · rfl
  | some e =>
      have removed := Rooted.removeFile_eq wf.above names there fun h => old (h ▸ there)
      exact ⟨_, Action.run_change_ok (by rw [removed]), wf.removeTree old,
        Rooted.entryAt?_removeTree wf.above old⟩

/-- An archive and a manifest in a directory are taken away, as far as they are there. -/
theorem run_removePair {w : World σ} (wf : w.files.WellFormed)
    (there : w.files.entryAt? directory = some .directory) {name : String}
    (artifact : IsName (name ++ artifactEnding)) (manifest : IsName (name ++ manifestEnding))
    (noArtifact : w.files.entryAt? (directory ++ [name ++ artifactEnding]) ≠ some .directory)
    (noManifest : w.files.entryAt? (directory ++ [name ++ manifestEnding]) ≠ some .directory) :
    ∃ t, (do removeIfThere (directory ++ [name ++ artifactEnding])
             removeIfThere (directory ++ [name ++ manifestEnding]) : Action σ Unit).run.run w =
        (.ok (), { w with files := t }) ∧ t.WellFormed ∧
      ∀ l, t.entryAt? l =
        if l = directory ++ [name ++ artifactEnding] ∨ l = directory ++ [name ++ manifestEnding] then none
        else w.files.entryAt? l := by
  have parent (c : String) : (directory ++ [c]).dropLast = directory := List.dropLast_concat
  obtain ⟨t₁, first, wf₁, view₁⟩ := run_removeIfThere wf (names_child wf there artifact)
    (by rw [parent, there]) noArtifact
  have there₁ : t₁.entryAt? directory = some .directory := by
    rw [view₁, if_neg (by simp), there]
  have noManifest₁ : t₁.entryAt? (directory ++ [name ++ manifestEnding]) ≠ some .directory := by
    rw [view₁]
    split
    · simp
    · exact noManifest
  obtain ⟨t₂, second, wf₂, view₂⟩ := run_removeIfThere (w := { w with files := t₁ }) wf₁
    (names_child (w := { w with files := t₁ }) wf₁ there₁ manifest) (by rw [parent, there₁]) noManifest₁
  refine ⟨t₂, (run_bind_ok first).trans second, wf₂, fun l => ?_⟩
  rw [view₂, view₁]
  by_cases isArtifact : l = directory ++ [name ++ artifactEnding] <;>
    by_cases isManifest : l = directory ++ [name ++ manifestEnding] <;> simp [isArtifact, isManifest]

/-- Archives are taken out of a directory with their manifests, and nothing else is changed. -/
structure TakenOut (t t' : FileTree) (directory : Location) (removed : List Stored) : Prop where
  wellFormed : t'.WellFormed
  gone : ∀ s ∈ removed, ∀ l, IsFileOf directory s l → t'.entryAt? l = none
  others : ∀ l, (∀ s ∈ removed, ¬IsFileOf directory s l) → t'.entryAt? l = t.entryAt? l

theorem TakenOut.or_none {removed : List Stored} (taken : TakenOut t t' directory removed) (l : Location) :
    t'.entryAt? l = t.entryAt? l ∨ t'.entryAt? l = none := by
  by_cases file : ∃ s ∈ removed, IsFileOf directory s l
  · obtain ⟨s, hs, file⟩ := file
    exact .inr (taken.gone s hs l file)
  · exact .inl (taken.others l fun s hs itself => file ⟨s, hs, itself⟩)

theorem TakenOut.base {name : String} {removed : List Stored}
    (taken : TakenOut t t' (root ++ [name]) removed) :
    t'.entryAt? root = t.entryAt? root := by
  refine taken.others root fun s _ file => ?_
  have := congrArg List.length file.dropLast_eq
  simp at this

/-- A directory with fewer files in it. -/
theorem Shelf.of_less (shelf : Shelf t directory)
    (less : ∀ c, t'.entryAt? (directory ++ [c]) = t.entryAt? (directory ++ [c]) ∨
      t'.entryAt? (directory ++ [c]) = none) : Shelf t' directory := by
  refine ⟨fun name e stands => ?_, fun name => ?_⟩
  · rcases less (name ++ artifactEnding) with same | gone
    · exact shelf.archives name e (same ▸ stands)
    · cases gone.symm.trans stands
  · rcases less (name ++ manifestEnding) with same | gone
    · rw [same]
      exact shelf.manifests name
    · simp [gone]

/-- A file is written. Where it is an archive of the directory, its name leaves room for its manifest. -/
theorem Shelf.written (shelf : Shelf t directory) {l : Location} {c : Content} (written : t.Written t' l c)
    (room : ∀ name, l = directory ++ [name ++ artifactEnding] → IsName (name ++ manifestEnding)) :
    Shelf t' directory := by
  obtain ⟨m, file⟩ := written.file
  refine ⟨fun name e stands => ?_, fun name => ?_⟩
  · by_cases here : directory ++ [name ++ artifactEnding] = l
    · rw [here, file] at stands
      cases stands
      exact ⟨⟨_, _, rfl⟩, room name here.symm⟩
    · exact shelf.archives name e ((written.others _ here).symm.trans stands)
  · by_cases here : directory ++ [name ++ manifestEnding] = l
    · simp [here, file]
    · rw [written.others _ here]
      exact shelf.manifests name

/-- Taking archives out of a directory with their manifests, each if it is still there. -/
theorem Shelf.run_removeStored {w : World σ} (shelf : Shelf w.files directory) (wf : w.files.WellFormed)
    (there : w.files.entryAt? directory = some .directory) {removed : List Stored}
    (names : ∀ s ∈ removed, IsName (s.name ++ artifactEnding) ∧ IsName (s.name ++ manifestEnding)) :
    ∃ t, (removeStored directory removed).run.run w = (.ok (), { w with files := t }) ∧
      TakenOut w.files t directory removed := by
  induction removed generalizing w with
  | nil => exact ⟨w.files, rfl, wf, by simp, fun _ _ => rfl⟩
  | cons s rest ih =>
      obtain ⟨⟨artifact, manifest⟩, names⟩ := List.forall_mem_cons.mp names
      obtain ⟨t₁, run, wf₁, view⟩ :=
        run_removePair wf there artifact manifest (shelf.artifacts s.name) (shelf.manifests s.name)
      have there₁ : t₁.entryAt? directory = some .directory := by
        rw [view, if_neg (by simp), there]
      have shelf₁ : Shelf t₁ directory := by
        refine shelf.of_less fun c => ?_
        rw [view]
        split
        · exact .inr rfl
        · exact .inl rfl
      obtain ⟨t, runs, taken⟩ := ih (w := { w with files := t₁ }) shelf₁ wf₁ there₁ names
      refine ⟨t, ?_, taken.wellFormed, List.forall_mem_cons.mpr ⟨fun l file => ?_, taken.gone⟩,
        fun l other => ?_⟩
      · rw [removeStored, ← bind_assoc, run_bind_ok run, runs]
      · have gone : t₁.entryAt? l = none := (view l).trans (if_pos file)
        rcases taken.or_none l with same | gone'
        · rw [same, gone]
        · exact gone'
      · obtain ⟨notFile, other⟩ := List.forall_mem_cons.mp other
        exact (taken.others l other).trans ((view l).trans (if_neg notFile))

/-- Sorted by time from the newest on, no archive is older than a later one. -/
theorem newestFirst (found : List Stored) :
    (found.mergeSort fun a b => b.modified ≤ a.modified).Pairwise fun a b => b.modified ≤ a.modified := by
  have sorted := @List.pairwise_mergeSort Stored (fun a b => b.modified ≤ a.modified)
    (fun a b c => by simpa using fun ab bc => Int.le_trans bc ab)
    (fun a b => by simpa using Int.le_total b.modified a.modified) found
  simpa using sorted

/-- A prune of a directory, once it is open: of what is found the first in order of their times are kept, and
the others are taken out. -/
theorem Shelf.run_pruneDirectory {w : World σ} (made : w.files.makeDirectories directory = (.ok (), t))
    (shelf : Shelf t directory) (wf : t.WellFormed) (there : t.entryAt? directory = some .directory)
    (keep : Int) : ∃ t' kept removed,
      (pruneDirectory directory keep).run.run w = (.ok (), { w with files := t' }) ∧
        TakenOut t t' directory removed ∧ t'.entries.Sublist t.entries ∧
        ((kept ++ removed).map (·.name)).Perm (artifactNames t directory) ∧
        (∀ s, s ∈ kept ++ removed ↔ Archived t directory s) ∧
        ((kept ++ removed).Pairwise fun a b => b.modified ≤ a.modified) ∧
        (0 ≤ keep → (kept.length : Int) = min keep (kept ++ removed).length) := by
  obtain ⟨found, listed, named, archived⟩ := shelf.storedIn wf there
  have perm := List.mergeSort_perm found fun a b => b.modified ≤ a.modified
  have sorted := newestFirst found
  have opened := Action.run_onFiles (·.makeDirectories directory) w
  rw [made] at opened
  rw [pruneDirectory, run_bind_ok opened, run_bind_ok (Action.run_ask_of listed)]
  dsimp only
  generalize found.mergeSort (fun a b => b.modified ≤ a.modified) = items at perm sorted
  obtain ⟨kept, split, count⟩ := dropKept_split keep items
  generalize dropKept keep items = removed at split
  subst split
  have stands : ∀ s, s ∈ kept ++ removed ↔ Archived t directory s := fun s =>
    perm.mem_iff.trans (archived s)
  obtain ⟨t', run, taken⟩ := shelf.run_removeStored (w := { w with files := t }) wf there fun s hs =>
    shelf.isName_files wf ((stands s).mp (List.mem_append_right kept hs))
  exact ⟨t', kept, removed, run, taken, (removeStored_ok run).1.entries, named ▸ perm.map _, stands, sorted,
    count⟩

end Conveyor.DirectoryStore
