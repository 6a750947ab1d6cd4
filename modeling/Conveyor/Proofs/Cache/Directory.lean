import Conveyor.Proofs.Cache.Naming
import Conveyor.Proofs.Cache.Unpack

/-!
What the operations of a store in a directory do to the tree. A request opens the directory of its key
and then extracts what is stored, if anything is; a save opens that directory, and puts the archive and
the manifest of the key in place once everything has been read.
-/

namespace Conveyor

variable {σ : Type}

namespace FileTree

theorem Opened.sameLinks {t t' : FileTree} {l : Location} (opened : t.Opened t' l)
    (pass : t.Passable l) : t.SameLinks t' := by
  intro m target
  rw [opened.view]
  split
  · rename_i hm
    rcases pass m hm with h | h <;> simp [h]
  · rfl

/-- The clock is no part of what stands where. -/
theorem WellFormed.tick {t : FileTree} (wf : t.WellFormed) (clock : Int) :
    WellFormed { t with clock } :=
  ⟨wf.named, wf.above⟩

end FileTree

/-- Neither of two directories lies in the other. -/
def Apart (l m : Location) : Prop := ¬ l <+: m ∧ ¬ m <+: l

/-- No place on the way to one directory or below it lies in the other. -/
theorem Apart.outside {l m place : Location} (apart : Apart l m)
    (h : place <+: m ∨ m <+: place) : ¬ l <+: place := by
  intro hl
  rcases h with h | h
  · exact apart.1 (hl.trans h)
  · rcases List.prefix_or_prefix_of_prefix hl h with h | h
    · exact apart.1 h
    · exact apart.2 h

theorem Apart.symm {l m : Location} (apart : Apart l m) : Apart m l := ⟨apart.2, apart.1⟩

theorem Apart.below {l m : Location} (apart : Apart l m) (parts rest : List String) :
    Apart (l ++ parts) (m ++ rest) := by
  constructor
  · intro h
    exact apart.outside (.inr (List.prefix_append m rest)) ((List.prefix_append l parts).trans h)
  · intro h
    exact apart.symm.outside (.inr (List.prefix_append l parts)) ((List.prefix_append m rest).trans h)

namespace DirectoryStore

theorem extract_run (key : String) (project : Location) (content : Content) (w : World σ) :
    (extract key project content).run.run w =
      match ((Tar.Listing.ofContent content).extract project).run.run w.files with
      | (.ok (), t) => (.ok ⟨true, key, "cache hit: restored artifact"⟩, { w with files := t })
      | (.error f, t) => (missOrFault key f, { w with files := t }) := by
  rw [extract, Action.run_onFiles]
  match ((Tar.Listing.ofContent content).extract project).run.run w.files with
  | (.ok (), t) => rfl
  | (.error f, t) => rfl

/-- The directory in which the files of a key are kept. -/
def keyDirectory (root : Location) (key : String) : Location :=
  root ++ [(StoredName.ofKey key).directory]

theorem artifactPlace_eq (root : Location) (key : String) :
    artifactPlace root key = keyDirectory root key ++ [(StoredName.ofKey key).artifact] :=
  List.append_cons root _ _

theorem draftPlace_artifact (root : Location) (key : String) :
    draftPlace (artifactPlace root key) =
      keyDirectory root key ++ [(StoredName.ofKey key).artifact ++ draftEnding] := by
  simp [artifactPlace_eq, draftPlace]

theorem manifestPlace_eq (root : Location) (key : String) :
    manifestPlace root key = keyDirectory root key ++ [(StoredName.ofKey key).manifest] :=
  List.append_cons root _ _

/-- What stands in the directory of a key is not above the directory of any key. -/
theorem not_above_keyDirectory (root : Location) (key other name : String) :
    ¬ keyDirectory root other ++ [name] <+: keyDirectory root key := by
  intro h
  have := h.length_le
  simp [keyDirectory] at this

theorem run_openDirectory {w : World σ} {t : FileTree} {root : Location} {key : String}
    (made : w.files.makeDirectories (keyDirectory root key) = (.ok (), t)) :
    (openDirectory root (StoredName.ofKey key).directory).run.run w =
      (.ok (keyDirectory root key), { w with files := t }) := by
  have run := Action.run_onFiles (·.makeDirectories (keyDirectory root key)) w
  rw [made] at run
  exact run_bind_ok run

section Stored

variable {w : World σ} {root project dest : Location} {key : String} {content : Content}
  {modified : Int} (wf : w.files.WellFormed)
  (stored : w.files.entryAt? (artifactPlace root key) = some (.file content modified))
include wf stored

theorem directory_of_stored : w.files.entryAt? (keyDirectory root key) = some .directory := by
  have above := wf.above _ _ stored
  rwa [artifactPlace_eq, List.dropLast_concat] at above

/-- A request for a key with something in its place extracts that. -/
theorem restore_stored (real : w.files.resolve project = .ok dest) :
    (restore root key project).run.run w = (extract key dest content).run.run w := by
  have opened := run_openDirectory (wf.makeDirectories_old (directory_of_stored wf stored))
  have there : (Action.ask (·.hasPath (artifactPlace root key))).run.run w = (.ok true, w) := by
    rw [Action.run_ask, FileTree.hasPath, wf.ask_eq stored (by simp)]
  have resolved : (Action.ask (·.resolve project)).run.run w = (.ok dest, w) := by
    rw [Action.run_ask, real]
  rw [restore, run_bind_ok opened]
  dsimp only
  rw [run_bind_ok there]
  simp only [Bool.not_true, Bool.false_eq_true, if_false]
  rw [run_bind_ok resolved, run_bind_ok (run_get w), wf.readFile_eq stored]

end Stored

/-- A tree in which the files of a key can be put in a store. -/
structure Ready (t : FileTree) (root : Location) (key : String) : Prop where
  wellFormed : t.WellFormed
  base : t.entryAt? root = some .directory
  directory : t.entryAt? (keyDirectory root key) = none ∨
    t.entryAt? (keyDirectory root key) = some .directory
  artifact : t.entryAt? (artifactPlace root key) ≠ some .directory
  manifest : t.entryAt? (manifestPlace root key) ≠ some .directory
  fits : (StoredName.ofKey key).Fits

section Ready

variable {w : World σ} {root : Location} {key : String} (ready : Ready w.files root key)
include ready

theorem Ready.names : ∀ n ∈ keyDirectory root key, IsName n :=
  List.forall_mem_append.mpr ⟨ready.wellFormed.named _ _ ready.base,
    List.forall_mem_singleton.mpr ready.fits.isName_directory⟩

theorem Ready.passable : w.files.Passable (keyDirectory root key) := by
  intro m hm
  rcases List.prefix_concat_iff.mp hm with rfl | hm
  · exact ready.directory
  · exact ready.wellFormed.passable ready.base m hm

theorem Ready.openDirectory : ∃ t',
    (openDirectory root (StoredName.ofKey key).directory).run.run w =
      (.ok (keyDirectory root key), { w with files := t' }) ∧
    w.files.Opened t' (keyDirectory root key) := by
  obtain ⟨t', made, opened⟩ := ready.wellFormed.makeDirectories_eq ready.names ready.passable
  exact ⟨t', run_openDirectory made, opened⟩

/-- A request for a key with nothing in its place is a miss, which only opens the directory. -/
theorem Ready.restore_missing (missing : w.files.entryAt? (artifactPlace root key) = none)
    (project : Location) : ∃ t',
    (restore root key project).run.run w =
      (.ok ⟨false, key, "cache miss"⟩, { w with files := t' }) ∧
    w.files.Opened t' (keyDirectory root key) := by
  obtain ⟨t', run, opened⟩ := ready.openDirectory
  refine ⟨t', ?_, opened⟩
  have new : t'.entryAt? (artifactPlace root key) = none := by
    rw [artifactPlace_eq, opened.other (not_above_keyDirectory root key key _), ← artifactPlace_eq,
      missing]
  have pass : t'.Passable (artifactPlace root key) := by
    intro m hm
    rw [artifactPlace_eq] at hm
    rcases List.prefix_concat_iff.mp hm with rfl | hm
    · exact .inl (artifactPlace_eq root key ▸ new)
    · exact .inr (opened.above hm)
  have names : ∀ n ∈ artifactPlace root key, IsName n := by
    rw [artifactPlace_eq]
    exact List.forall_mem_append.mpr ⟨ready.names,
      List.forall_mem_singleton.mpr ready.fits.isName_artifact.1⟩
  have absent : (Action.ask (·.hasPath (artifactPlace root key))).run.run { w with files := t' } =
      (.ok false, { w with files := t' }) := by
    rw [Action.run_ask, FileTree.hasPath, FileTree.ask_of_none names pass.linkFree new]
  rw [restore, run_bind_ok run]
  dsimp only
  rw [run_bind_ok absent]
  rfl

end Ready

section Put

variable {w : World σ} {directory : Location} {name : String} (wf : w.files.WellFormed)
  (there : w.files.entryAt? directory = some .directory)
include wf there

theorem names_child {n : String} (hn : IsName n) : ∀ c ∈ directory ++ [n], IsName c :=
  List.forall_mem_append.mpr ⟨wf.named _ _ there, List.forall_mem_singleton.mpr hn⟩

theorem followParent_child {n : String} (hn : IsName n) :
    w.files.followParent (directory ++ [n]) = .ok (directory ++ [n]) :=
  wf.followParent_eq (names_child wf there hn) (by rwa [List.dropLast_concat])

theorem run_askDraft (hdraft : IsName (name ++ draftEnding)) :
    (Action.ask fun t => FileTree.orFault (draftPlace (directory ++ [name]))
      (t.followParent (draftPlace (directory ++ [name])))).run.run w =
      (.ok (directory ++ [name ++ draftEnding]), w) := by
  have draft : draftPlace (directory ++ [name]) = directory ++ [name ++ draftEnding] := by
    simp [draftPlace]
  rw [Action.run_ask, draft, followParent_child wf there hdraft]
  rfl

theorem run_putFile (hname : IsName name) (hdraft : IsName (name ++ draftEnding))
    (free : w.files.entryAt? (directory ++ [name]) ≠ some .directory) (c : Content) (m : Int) :
    ∃ t', (putFile (directory ++ [name]) c m).run.run w = (.ok (), { w with files := t' }) ∧
      w.files.Written t' (directory ++ [name]) c := by
  have parent : w.files.entryAt? (directory ++ [name]).dropLast = some .directory := by
    rwa [List.dropLast_concat]
  have names := names_child wf there hname
  refine ⟨_, ?_, wf.set_file (by simp) names parent free c m⟩
  rw [putFile, run_bind_ok (run_askDraft wf there hdraft)]
  exact Action.run_change_ok (wf.replaceFile_eq names parent free c m)

end Put

/-- The files of a key stand in a store, and nothing is changed but their places and their directory. -/
structure SavedTo (t t' : FileTree) (root : Location) (key : String) (members : List Member) : Prop where
  wellFormed : t'.WellFormed
  artifact : t'.HasFile (artifactPlace root key) (.archive members)
  manifest : ∃ c, t'.HasFile (manifestPlace root key) c
  others : ∀ l, l ≠ artifactPlace root key → l ≠ manifestPlace root key →
    t'.entryAt? l = if l <+: keyDirectory root key then some .directory else t.entryAt? l

section Save

variable {w : World σ} {root project tree : Location} {key : String} (ready : Ready w.files root key)
include ready

theorem Ready.sameHome (apart : Apart root tree) {t' : FileTree}
    (opened : w.files.Opened t' (keyDirectory root key)) : w.files.SameHome t' tree := by
  refine ⟨opened.sameLinks ready.passable, fun parts => ?_⟩
  exact opened.other (apart.below _ parts).2

/-- Putting the two files of a key in place, once its directory is open. -/
theorem Ready.putFiles {t₁ : FileTree} (opened : w.files.Opened t₁ (keyDirectory root key))
    (members : List Member) (manifest : Content) (modified : Int) :
    ∃ t', (do putFile (artifactPlace root key) (.archive members) modified
              putFile (manifestPlace root key) manifest modified : Action σ Unit).run.run
        { w with files := t₁ } = (.ok (), { w with files := t' }) ∧
      SavedTo w.files t' root key members ∧ t'.HasFile (manifestPlace root key) manifest := by
  have there := opened.itself
  have untouched : ∀ name, t₁.entryAt? (keyDirectory root key ++ [name]) =
      w.files.entryAt? (keyDirectory root key ++ [name]) := by
    intro name
    exact opened.other (not_above_keyDirectory root key key name)
  have freeArtifact : t₁.entryAt? (keyDirectory root key ++ [(StoredName.ofKey key).artifact]) ≠
      some .directory := by
    rw [untouched, ← artifactPlace_eq]
    exact ready.artifact
  obtain ⟨t₂, runArtifact, first⟩ := run_putFile (w := { w with files := t₁ }) opened.wellFormed there
    ready.fits.isName_artifact.1 ready.fits.isName_artifact.2 freeArtifact (.archive members) modified
  rw [← artifactPlace_eq] at runArtifact first
  have distinct := (artifactPlace_ne_manifestPlace root key key).symm
  have freeManifest : t₂.entryAt? (keyDirectory root key ++ [(StoredName.ofKey key).manifest]) ≠
      some .directory := by
    rw [← manifestPlace_eq, first.others _ distinct, manifestPlace_eq, untouched, ← manifestPlace_eq]
    exact ready.manifest
  have there₂ : t₂.entryAt? (keyDirectory root key) = some .directory := by
    rw [first.others, there]
    intro h
    have := congrArg List.length h
    simp [artifactPlace, keyDirectory] at this
  obtain ⟨t₃, runManifest, second⟩ := run_putFile (w := { w with files := t₂ }) first.wellFormed there₂
    ready.fits.isName_manifest.1 ready.fits.isName_manifest.2 freeManifest manifest modified
  rw [← manifestPlace_eq] at runManifest second
  refine ⟨t₃, ?_, ⟨second.wellFormed, ?_, ⟨manifest, second.file⟩, fun l ha hm => ?_⟩, second.file⟩
  · rw [run_bind_ok runArtifact]
    exact runManifest
  · rw [FileTree.HasFile, second.others _ distinct.symm]
    exact first.file
  · rw [second.others l hm, first.others l ha]
    exact opened.view l

/-- A save opens the directory of the key and looks there at what it is to save; it ends with what it
cannot select or read, or puts the members in place with a manifest of what was selected. -/
theorem Ready.run_save_opened (real : w.files.resolve project = .ok tree) (paths : List String) :
    ∃ t₁, w.files.makeDirectories (keyDirectory root key) = (.ok (), t₁) ∧
      w.files.Opened t₁ (keyDirectory root key) ∧
      (∀ fault, t₁.selection tree paths = .error fault →
        (save root key paths project).run.run w = (.error fault, { w with files := t₁ })) ∧
      ∀ selected, t₁.selection tree paths = .ok selected →
        (∀ fault, t₁.membersOf selected = .error fault →
          (save root key paths project).run.run w = (.error fault, { w with files := t₁ })) ∧
        ∀ members, t₁.membersOf selected = .ok members → ∃ t',
          (save root key paths project).run.run w = (.ok (), { w with files := t' }) ∧
            SavedTo w.files t' root key members ∧ ∃ now, t'.HasFile (manifestPlace root key)
              (.ofText (Manifest.text ⟨key, paths, selected.map (·.name), now⟩)) := by
  obtain ⟨t₁, made, opened⟩ := ready.wellFormed.makeDirectories_eq ready.names ready.passable
  have run := run_openDirectory made
  have resolved : (Action.ask (·.resolve project)).run.run w = (.ok tree, w) := by
    rw [Action.run_ask, real]
  have asked := run_askDraft (w := { w with files := t₁ }) opened.wellFormed opened.itself
    ready.fits.isName_artifact.2
  rw [← artifactPlace_eq] at asked
  have select := Action.run_ask (·.selection tree paths) { w with files := t₁ }
  dsimp only at select
  rw [save, run_bind_ok resolved, run_bind_ok run]
  dsimp only
  rw [run_bind_ok asked]
  refine ⟨t₁, made, opened, fun fault hsel => ?_, fun selected hsel => ?_⟩
  · rw [hsel] at select
    exact run_bind_error select
  · rw [hsel] at select
    have read := Action.run_ask (·.membersOf selected) { w with files := t₁ }
    dsimp only at read
    rw [run_bind_ok select]
    refine ⟨fun fault hread => ?_, fun members hread => ?_⟩
    · rw [hread] at read
      exact run_bind_error read
    · rw [hread] at read
      have ticked : w.files.Opened { t₁ with clock := t₁.clock + 1 } (keyDirectory root key) :=
        ⟨opened.wellFormed.tick _, opened.view⟩
      obtain ⟨t', put, saved, told⟩ := ready.putFiles ticked members
        (.ofText (Manifest.text ⟨key, paths, selected.map (·.name), t₁.clock + 1⟩)) (t₁.clock + 1)
      refine ⟨t', ?_, saved, _, told⟩
      rw [run_bind_ok read, run_bind_ok (run_modify _ _), run_bind_ok (run_get _)]
      exact put

/-- A save ends before anything but the directory of the key is changed, which it does only for a path
that is not accepted, or it puts the files that it finds in place. -/
theorem Ready.run_save (real : w.files.resolve project = .ok tree) (home : w.files.Home tree)
    (apart : Apart root tree) (paths : List String) :
    (∃ fault t', (save root key paths project).run.run w = (.error fault, { w with files := t' }) ∧
      w.files.Opened t' (keyDirectory root key) ∧ ∃ path ∈ paths, ¬ w.files.Accepted tree path) ∨
    ∃ files t', (save root key paths project).run.run w = (.ok (), { w with files := t' }) ∧
      Catch.ofFiles files = w.files.Finds tree paths ∧
      SavedTo w.files t' root key (files.map KeptFile.member) := by
  obtain ⟨t₁, -, opened, failed, done⟩ := ready.run_save_opened real paths
  have same := ready.sameHome apart opened
  have home₁ := same.home home
  rw [home₁.selection_eq opened.wellFormed] at failed done
  cases hsel : t₁.selectPaths tree paths with
  | error fault =>
      obtain ⟨path, hpath, refused⟩ := home₁.refused opened.wellFormed hsel
      exact .inl ⟨fault, t₁, failed fault hsel, opened, path, hpath, mt same.accepted refused⟩
  | ok sel =>
      obtain ⟨files, rfl, found⟩ := home₁.selectPaths_ok opened.wellFormed hsel
      obtain ⟨t', run, saved, -⟩ := (done _ hsel).2 _
        (opened.wellFormed.membersOf_eq (FileTree.hasFile_of_found found))
      exact .inr ⟨files, t', run, found.trans (same.finds_eq ready.wellFormed home paths), saved⟩

end Save

end DirectoryStore

end Conveyor
