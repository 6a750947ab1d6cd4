import Conveyor.Proofs.Cache.Aside
import Mathlib

/-!
What a store holds after any requests. From an empty store on, archives and manifests agree, as long as no
request extracts over the store itself; where a store lies in the project that it serves, a request may.
A manifest lists the names that the members were made from. Those are the names of the members, but for
an archive in the making, which a save may find, and for slashes at the ends of a name.
-/

namespace Conveyor.DirectoryStore

open FileTree

variable {σ : Type} {root : Location}

/-- The worlds that a store comes to from an empty one, as it is saved to, asked and pruned. A save may have
its archive aside in sight of what it looks for, or at once. Between the operations of the store the world
may change elsewhere, and what a request extracts spares the store. -/
inductive Arises (root : Location) : World σ → Prop
  | empty {w : World σ} (wf : w.files.WellFormed) (base : w.files.entryAt? root = some .directory)
      (nothing : ∀ parts, parts ≠ [] → w.files.entryAt? (root ++ parts) = none) : Arises root w
  | elsewhere {w w' : World σ} (before : Arises root w) (wf : w'.files.WellFormed)
      (same : ∀ parts, w'.files.entryAt? (root ++ parts) = w.files.entryAt? (root ++ parts)) :
      Arises root w'
  | saved {w w' : World σ} {key : String} {paths : List String} {project : Location}
      (before : Arises root w) (run : (save root key paths project).run.run w = (.ok (), w')) :
      Arises root w'
  | notSaved {w w' : World σ} {key : String} {paths : List String} {project : Location} {f : Fault}
      (before : Arises root w) (gathering : ((gather root key paths project).run.run w).1 = .error f)
      (run : (save root key paths project).run.run w = (.error f, w')) : Arises root w'
  | savedAside {w w' : World σ} {key : String} {paths : List String} {project : Location}
      (before : Arises root w) (run : (saveAside root key paths project).run.run w = (.ok (), w')) :
      Arises root w'
  | notSavedAside {w w' : World σ} {key : String} {paths : List String} {project : Location} {f : Fault}
      (before : Arises root w) (failed : (gatherAside root key paths project).run.run w = (.error f, w')) :
      Arises root w'
  | restored {w w' : World σ} {key : String} {project : Location} {answer : Except Fault Restored}
      (before : Arises root w) (run : (restore root key project).run.run w = (answer, w'))
      (wf : w'.files.WellFormed) (spares : ∀ parts, w'.files.entryAt? (root ++ parts) =
        ((openDirectory root (StoredName.ofKey key).directory).run.run w).2.files.entryAt?
          (root ++ parts)) : Arises root w'
  | pruned {w w' : World σ} {scope : Option String} {keep : Int} {answer : Except Fault Unit}
      (before : Arises root w) (run : (prune root scope keep).run.run w = (answer, w')) : Arises root w'

theorem paired_of_empty {t : FileTree} (wf : t.WellFormed) (base : t.entryAt? root = some .directory)
    (nothing : ∀ parts, parts ≠ [] → t.entryAt? (root ++ parts) = none) : Paired root t := by
  refine ⟨wf, base, fun parts e proper there => ?_, fun key => ?_⟩
  · cases (nothing parts proper).symm.trans there
  · exact .neither (nothing _ (by simp)) (nothing _ (by simp))

theorem Arises.paired {w : World σ} (arises : Arises root w) : Paired root w.files := by
  induction arises with
  | empty wf base nothing => exact paired_of_empty wf base nothing
  | elsewhere _ wf same ih => exact ih.congr wf same
  | saved _ run ih => exact ih.saved run
  | notSaved _ gathering run ih => exact ih.notSaved gathering run
  | savedAside _ run ih => exact ih.savedAside run
  | notSavedAside _ failed ih => exact ih.notSavedAside failed
  | restored _ _ wf spares ih => exact (ih.run_openDirectory _).congr wf spares
  | pruned _ run ih => exact ih.pruned run

/-- An archive stands exactly where a manifest stands, which lists the key and, in the order of the members,
the names that they were made from. Those are just the names of the members, unless the draft of the archive
is listed with them or a name has a slash at one of its ends. Nothing else is in the store but directories
of keys, and nothing that is still being written. -/
theorem archives_and_manifests_agree {w : World σ} (arises : Arises root w) :
    (∀ key, (∃ e, w.files.entryAt? (artifactPlace root key) = some e) ↔
      ∃ e, w.files.entryAt? (manifestPlace root key) = some e) ∧
    (∀ key e, w.files.entryAt? (artifactPlace root key) = some e → ∃ members modified names c modified',
      e = .file (.archive members) modified ∧
        w.files.entryAt? (manifestPlace root key) = some (.file c modified') ∧
        Manifest.Lists c key names ∧ Names (draftPlace (artifactPlace root key)) names members ∧
        ((∀ n ∈ names, ¬TellsDraft (draftPlace (artifactPlace root key)) n ∧ n.toList.head? ≠ some '/' ∧
            n.toList.getLast? ≠ some '/') → Manifest.Lists c key (members.map (·.name)))) ∧
    (∀ parts e, parts ≠ [] → w.files.entryAt? (root ++ parts) = some e → Belongs root (root ++ parts) e) ∧
    ∀ parts name e, w.files.entryAt? (root ++ parts ++ [name]) = some e →
      ¬".tmp".toList <:+ name.toList := by
  have paired := arises.paired
  refine ⟨fun key => ?_, fun key e there => ?_, paired.belongs, fun parts name e there => ?_⟩
  · cases paired.pairs key with
    | neither artifact manifest => simp [artifact, manifest]
    | both artifact manifest =>
        obtain ⟨m, artifact⟩ := artifact
        obtain ⟨n, manifest⟩ := manifest
        exact iff_of_true ⟨_, artifact⟩ ⟨_, manifest⟩
  · cases paired.pairs key with
    | neither artifact => cases artifact.symm.trans there
    | both artifact manifest lists named =>
        obtain ⟨m, artifact⟩ := artifact
        obtain ⟨n, manifest⟩ := manifest
        cases artifact.symm.trans there
        exact ⟨_, m, _, _, n, rfl, manifest, lists, named, fun whole => (named.eq whole).symm ▸ lists⟩
  · rw [List.append_assoc] at there
    have belongs := paired.belongs (parts ++ [name]) e (by simp) there
    rw [← List.append_assoc] at belongs
    exact belongs.not_draft

section Sample

/-- A project with an empty store in it. -/
def freshTree : FileTree := (({} : FileTree).set ["p"] .directory).set ["p", "c"] .directory

abbrev freshWorld : World Unit := ⟨freshTree, [], ()⟩

theorem wellFormed_freshTree : freshTree.WellFormed := FileTree.wellFormed_of_entries (by decide)

theorem nothing_freshTree (parts : List String) (proper : parts ≠ []) :
    freshTree.entryAt? (["p", "c"] ++ parts) = none := by
  rw [freshTree, entryAt?_set _ (by simp), if_neg (by simpa using proper), entryAt?_set _ (by simp),
    if_neg (by simp)]
  simp [entryAt?, Table.get?]

theorem paired_freshTree : Paired ["p", "c"] freshTree :=
  paired_of_empty wellFormed_freshTree rfl nothing_freshTree

theorem fits_k : (StoredName.ofKey "k").Fits := ⟨by decide, by decide⟩

theorem manifestPlace_k : manifestPlace ["p", "c"] "k" = ["p", "c", "_", "k.manifest.json"] := by decide

/-- The manifest of the key as a file of the project. -/
def manifestFile (c : Content) : KeptFile := (["c", "_", "k.manifest.json"], c)

section Selection

variable {t : FileTree} (wf : t.WellFormed) (project : t.entryAt? ["p"] = some .directory)
include wf project

/-- A path that leads nowhere. -/
theorem selection_missing (missing : t.entryAt? ["p", "f"] = none) : t.selection ["p"] ["f"] = .ok [] := by
  have place : Location.ofPath ["p"] (Path.ofText "f") = ["p", "f"] := by decide
  have free : t.LinkFree ["p", "f"] := (wf.linkFree project (by simp)).concat_of_none missing
  have real : t.resolve (Location.ofPath ["p"] (Path.ofText "f")) = .ok ["p", "f"] := by
    rw [place, FileTree.resolve_eq (by decide) free]
  have absent : t.hasPath ["p", "f"] = .ok false := FileTree.ask_of_none (by decide) free missing _
  simp only [selection, wf.resolve_directory project, bind, Except.bind, selectPaths,
    selectPath_left_out real (.inl absent)]
  rfl

/-- A path that leads to a manifest in the project. -/
theorem selection_manifest {c : Content} (manifest : t.HasFile ["p", "c", "_", "k.manifest.json"] c) :
    t.selection ["p"] ["c/_/k.manifest.json"] =
      .ok ([manifestFile c].map (KeptFile.selected ["p"])) := by
  obtain ⟨m, there⟩ := manifest
  have real : t.resolve ["p", "c", "_", "k.manifest.json"] = .ok ["p", "c", "_", "k.manifest.json"] :=
    FileTree.resolve_eq (by decide) (wf.linkFree there (by simp))
  have place : Location.ofPath ["p"] (Path.ofText "c/_/k.manifest.json") =
      ["p", "c", "_", "k.manifest.json"] := by
    decide
  have isFile : t.isFile ["p", "c", "_", "k.manifest.json"] = .ok true := wf.ask_eq there (by simp) _
  have name : t.nameInside ["p"] ["p", "c", "_", "k.manifest.json"] = .ok (manifestFile c).name := by
    rw [FileTree.nameInside, real]
    exact congrArg Except.ok
      (FileTree.keptName_eq (show ["c", "_", "k.manifest.json"] ≠ [] by simp) (by decide))
  simp only [selection, wf.resolve_directory project, bind, Except.bind, selectPaths,
    selectPath_file (place ▸ real) (show ["p"] <+: ["p", "c", "_", "k.manifest.json"] by simp) isFile, name]
  rfl

end Selection

/-- A store that has nothing of a key saves what it finds under a path that leads nowhere. -/
theorem save_nothing : ∃ w : World Unit,
    (save ["p", "c"] "k" ["f"] ["p"]).run.run freshWorld = (.ok (), w) ∧
      w.files.entryAt? ["p"] = some .directory ∧
      ∃ c, w.files.HasFile ["p", "c", "_", "k.manifest.json"] c ∧ Manifest.Lists c "k" [] := by
  have ready := paired_freshTree.ready fits_k
  have real : freshTree.resolve ["p"] = .ok ["p"] := wellFormed_freshTree.resolve_directory rfl
  obtain ⟨t₁, -, opened, -, done⟩ := Ready.run_save_opened (w := freshWorld) ready real ["f"]
  have project : t₁.entryAt? ["p"] = some .directory := opened.above (by decide)
  have missing : t₁.entryAt? ["p", "f"] = none := by
    rw [opened.other (by decide)]
    rfl
  obtain ⟨t, run, saved, now, told⟩ :=
    (done [] (selection_missing opened.wellFormed project missing)).2 [] rfl
  rw [manifestPlace_k] at told
  refine ⟨_, run, ?_, _, told, Manifest.lists_text ⟨"k", ["f"], [], now⟩⟩
  rw [saved.others _ (by decide) (by decide), if_pos (by decide)]

section Stored

variable {w : World Unit} (paired : Paired ["p", "c"] w.files)
  (project : w.files.entryAt? ["p"] = some .directory) {c : Content}
include paired project

/-- A manifest in the project is saved as any file is. -/
theorem save_manifest (manifest : w.files.HasFile ["p", "c", "_", "k.manifest.json"] c) : ∃ w',
    (save ["p", "c"] "k" ["c/_/k.manifest.json"] ["p"]).run.run w = (.ok (), w') ∧
      w'.files.entryAt? ["p"] = some .directory ∧
      w'.files.HasFile (artifactPlace ["p", "c"] "k")
        (.archive ([manifestFile c].map KeptFile.member)) := by
  obtain ⟨t₁, -, opened, -, done⟩ := Ready.run_save_opened (paired.ready fits_k)
    (paired.wellFormed.resolve_directory project) ["c/_/k.manifest.json"]
  have project₁ : t₁.entryAt? ["p"] = some .directory := opened.above (by decide)
  have manifest₁ : t₁.HasFile ["p", "c", "_", "k.manifest.json"] c := by
    rw [HasFile, opened.other (by decide)]
    exact manifest
  have packed : t₁.membersOf ([manifestFile c].map (KeptFile.selected ["p"])) =
      .ok ([manifestFile c].map KeptFile.member) :=
    opened.wellFormed.membersOf_eq (List.forall_mem_singleton.mpr manifest₁)
  obtain ⟨t, run, saved, -⟩ :=
    (done _ (selection_manifest opened.wellFormed project₁ manifest₁)).2 _ packed
  refine ⟨_, run, ?_, saved.artifact⟩
  rw [saved.others _ (by decide) (by decide), if_pos (by decide)]

/-- A request for the key puts the saved manifest in the place of the one that is there. -/
theorem restore_manifest
    (stored : w.files.HasFile (artifactPlace ["p", "c"] "k")
      (.archive ([manifestFile c].map KeptFile.member))) :
    ∃ answer w', (restore ["p", "c"] "k" ["p"]).run.run w = (.ok answer, w') ∧
      w'.files.HasFile (artifactPlace ["p", "c"] "k") (.archive ([manifestFile c].map KeptFile.member)) ∧
      w'.files.HasFile (manifestPlace ["p", "c"] "k") c := by
  have wf := paired.wellFormed
  obtain ⟨m, stored⟩ := stored
  have coherent : (Catch.ofFiles [manifestFile c]).Coherent :=
    Catch.coherent_single (by simp) (by decide)
  have free : w.files.entryAt? (manifestPlace ["p", "c"] "k") = none ∨
      ∃ d, w.files.HasFile (manifestPlace ["p", "c"] "k") d := by
    cases paired.pairs "k" with
    | neither _ missing => exact .inl missing
    | both _ there => exact .inr ⟨_, there⟩
  have receives : w.files.Receives ["p"] (.ofFiles [manifestFile c]) :=
    wf.receives_single (directory_of_stored wf stored) free
  obtain ⟨t, run, unpacked⟩ := Tar.Listing.run_extract wf coherent receives
  have extracted : ((Tar.Listing.ofContent (.archive ([manifestFile c].map KeptFile.member))).extract
      ["p"]).run.run w.files = (.ok (), t) := run
  rw [restore_stored wf stored (wf.resolve_directory project), extract_run, extracted]
  refine ⟨_, _, rfl, ⟨m, ?_⟩, unpacked.files _ _ (List.mem_singleton.mpr rfl)⟩
  rw [unpacked.others _ fun parts d h => ?_, stored]
  rw [(Catch.ofFiles_single.mp h).1]
  decide

end Stored

/-- A project with an empty store and three files. -/
def filledTree : FileTree :=
  ((freshTree.set ["p", "f"] (.file (.ofText "1") 0)).set ["p", "g"] (.file (.ofText "2") 0)).set
    ["p", "\\x"] (.file (.ofText "3") 0)

abbrev filledWorld : World Unit := ⟨filledTree, [], ()⟩

theorem nothing_filledTree (parts : List String) (proper : parts ≠ []) :
    filledTree.entryAt? (["p", "c"] ++ parts) = none := by
  rw [filledTree, entryAt?_set _ (by simp), entryAt?_set _ (by simp), entryAt?_set _ (by simp),
    nothing_freshTree parts proper]
  simp

theorem wellFormed_filledTree : filledTree.WellFormed := FileTree.wellFormed_of_entries (by decide)

theorem paired_filledTree : Paired ["p", "c"] filledTree :=
  paired_of_empty wellFormed_filledTree rfl nothing_filledTree

/-- The directory of the key is open. -/
def openTree : FileTree := filledTree.set ["p", "c", "_"] .directory

abbrev openWorld : World Unit := ⟨openTree, [], ()⟩

theorem opened_filledTree : filledTree.Opened openTree (keyDirectory ["p", "c"] "k") := by
  have ready : Ready filledWorld.files ["p", "c"] "k" := paired_filledTree.ready fits_k
  obtain ⟨t, made, opened⟩ := wellFormed_filledTree.makeDirectories_eq ready.names ready.passable
  have opens : filledTree.makeDirectories (keyDirectory ["p", "c"] "k") = (.ok (), openTree) := by cbv
  cases made.symm.trans opens
  exact opened

/-- The draft of the archive of the key. -/
def draftOfKey : Location := ["p", "c", "_", "k.tar.gz12345678.tmp"]

theorem draftPlace_k : draftPlace (artifactPlace ["p", "c"] "k") = draftOfKey := by decide

theorem approach_filledTree : (approach ["p", "c"] "k" ["p"]).run.run filledWorld =
    (.ok (["p"], draftOfKey), openWorld) := by
  cbv

/-- What a save finds under its paths, beside the draft, is what its archive and its manifest are made
of. -/
theorem saveAside_filledTree {paths : List String} {found : List (Selected × Member)}
    (grown : ∃ w, (grow draftOfKey draftOfKey [] (saveLooks ["p"] paths)).run.run
      (drafted openWorld draftOfKey []) = (.ok found, w)) :
    ∃ w, (saveAside ["p", "c"] "k" paths ["p"]).run.run filledWorld = (.ok (), w) ∧
      w.files.HasFile (artifactPlace ["p", "c"] "k") (.archive (packed draftOfKey found)) ∧
      ∃ c, w.files.HasFile (manifestPlace ["p", "c"] "k") c ∧
        Manifest.Lists c "k" ((found.map (·.1)).map (·.name)) := by
  have ready : Ready filledWorld.files ["p", "c"] "k" := paired_filledTree.ready fits_k
  obtain ⟨t, run, saved, now, told⟩ := ready.run_saveAside_made opened_filledTree
    (draftPlace_k ▸ rfl) (draftPlace_k ▸ approach_filledTree) (draftPlace_k ▸ grown)
  have lists := Manifest.lists_text ⟨"k", paths, (found.map (·.1)).map (·.name), now⟩
  rw [draftPlace_k] at saved
  exact ⟨_, run, saved.artifact, _, told, lists⟩

/-- The tree in which a save looks for its files. -/
def seenTree (written : List Member) : FileTree := (drafted openWorld draftOfKey written).files

theorem resolve_seenTree (written : List Member) : (seenTree written).resolve ["p"] = .ok ["p"] := by
  cbv

/-- A look at a path finds what is selected by it. -/
theorem look_seenTree {written members : List Member} {path : String} {selected : List Selected}
    (selects : (seenTree written).selectPath ["p"] path = .ok selected)
    (packs : (seenTree written).membersOf selected = .ok members) :
    (do let selected ← (seenTree written).selectPath (← (seenTree written).resolve ["p"]) path
        return selected.zip (← (seenTree written).membersOf selected) : Except Fault _) =
      .ok (selected.zip members) := by
  simp only [resolve_seenTree, selects, packs, bind, Except.bind]
  rfl

theorem first_look : (do
      let _ ← (seenTree []).resolve ["p"]
      return [] : Except Fault (List (Selected × Member))) = .ok [] := by
  rw [resolve_seenTree]
  rfl

/-- A backslash counts as a slash in a name, but an archive has no name that starts with one. -/
theorem grow_backslash : ∃ w, (grow draftOfKey draftOfKey [] (saveLooks ["p"] ["\\x"])).run.run
    (drafted openWorld draftOfKey []) =
      (.ok [(⟨["p", "\\x"], "/x"⟩, .mk "x" (.file (.ofText "3")))], w) := by
  have selects : (seenTree []).selectPath ["p"] "\\x" = .ok [⟨["p", "\\x"], "/x"⟩] := by cbv
  have packs : (seenTree []).membersOf [⟨["p", "\\x"], "/x"⟩] =
      .ok [.mk "x" (.file (.ofText "3"))] := by cbv
  exact ⟨_, (run_grow_cons first_look _).trans ((run_grow_cons (look_seenTree selects packs) _).trans rfl)⟩

/-- The two files come one after the other. -/
theorem grow_files : ∃ w, (grow draftOfKey draftOfKey [] (saveLooks ["p"] ["f", "g"])).run.run
    (drafted openWorld draftOfKey []) =
      (.ok [(⟨["p", "f"], "f"⟩, .mk "f" (.file (.ofText "1"))),
        (⟨["p", "g"], "g"⟩, .mk "g" (.file (.ofText "2")))], w) := by
  have selects : (seenTree []).selectPath ["p"] "f" = .ok [⟨["p", "f"], "f"⟩] := by cbv
  have packs : (seenTree []).membersOf [⟨["p", "f"], "f"⟩] = .ok [.mk "f" (.file (.ofText "1"))] := by cbv
  have selects' : (seenTree [.mk "f" (.file (.ofText "1"))]).selectPath ["p"] "g" =
      .ok [⟨["p", "g"], "g"⟩] := by cbv
  have packs' : (seenTree [.mk "f" (.file (.ofText "1"))]).membersOf [⟨["p", "g"], "g"⟩] =
      .ok [.mk "g" (.file (.ofText "2"))] := by cbv
  exact ⟨_, (run_grow_cons first_look _).trans ((run_grow_cons (look_seenTree selects packs) _).trans
    ((run_grow_cons (look_seenTree selects' packs') _).trans rfl))⟩

theorem wellFormed_seenTree : (seenTree []).WellFormed := FileTree.wellFormed_of_entries (by decide)

/-- In the directory of the key stands nothing but the draft. -/
theorem selectPath_seenTree :
    (seenTree []).selectPath ["p"] "c/_" = .ok [⟨draftOfKey, "c/_/k.tar.gz12345678.tmp"⟩] := by
  have wf := wellFormed_seenTree
  have there : (seenTree []).entryAt? draftOfKey = some (.file (.archive []) 0) := rfl
  have leads : (seenTree []).resolve (Location.ofPath ["p"] (Path.ofText "c/_")) = .ok ["p", "c", "_"] := by
    cbv
  have hasPath : (seenTree []).hasPath ["p", "c", "_"] = .ok true := by cbv
  have notFile : (seenTree []).isFile ["p", "c", "_"] = .ok false := by cbv
  have isFile : (seenTree []).isFile draftOfKey = .ok true := wf.ask_eq there (by simp) _
  have below : (seenTree []).placesBelow ["p", "c", "_"] = [draftOfKey] := by cbv
  have lists : (seenTree []).listBelow ["p", "c", "_"] = .ok [draftOfKey] := by
    rw [← below]
    refine FileTree.listBelow_eq_ok ?_
    rw [below]
    exact List.forall_mem_singleton.mpr ⟨false, wf.ask_eq there (by simp) _⟩
  have real : (seenTree []).resolve draftOfKey = .ok draftOfKey :=
    FileTree.resolve_eq (by decide) (wf.linkFree there (by simp))
  have name : (seenTree []).nameInside ["p"] draftOfKey = .ok "c/_/k.tar.gz12345678.tmp" := by
    rw [(FileTree.nameInside_eq real).1 ["c", "_", "k.tar.gz12345678.tmp"] rfl]
    exact congrArg Except.ok (FileTree.keptName_eq (by simp) (by decide))
  rw [selectPath_below leads (by decide) hasPath notFile, lists]
  simp only [selectFiles, isFile, name, bind, Except.bind]
  rfl

theorem membersOf_seenTree : (seenTree []).membersOf [⟨draftOfKey, "c/_/k.tar.gz12345678.tmp"⟩] =
    .ok [.mk "c/_/k.tar.gz12345678.tmp" (.file (.archive []))] := by
  cbv

/-- A save that has the directory of its key among its paths finds its own archive in the making. -/
theorem grow_draft : ∃ w, (grow draftOfKey draftOfKey [] (saveLooks ["p"] ["c/_"])).run.run
    (drafted openWorld draftOfKey []) =
      (.ok [(⟨draftOfKey, "c/_/k.tar.gz12345678.tmp"⟩,
        .mk "c/_/k.tar.gz12345678.tmp" (.file (.archive [])))], w) :=
  ⟨_, (run_grow_cons first_look _).trans
    ((run_grow_cons (look_seenTree selectPath_seenTree membersOf_seenTree) _).trans rfl)⟩

/-- A key has an archive with a manifest that does not list its members. -/
def Disagree (t : FileTree) (root : Location) (key : String) : Prop :=
  ∃ members c, t.HasFile (artifactPlace root key) (.archive members) ∧
    t.HasFile (manifestPlace root key) c ∧ ∀ other, ¬Manifest.Lists c other (members.map (·.name))

/-- Where a store lies in the project, the archive of a key may hold the former manifest of the key; a
request then puts that back, and it does not list what the archive holds. -/
theorem restore_over_store : ∃ w₁ w₂ w₃ : World Unit, ∃ answer,
    (save ["p", "c"] "k" ["f"] ["p"]).run.run freshWorld = (.ok (), w₁) ∧
    (save ["p", "c"] "k" ["c/_/k.manifest.json"] ["p"]).run.run w₁ = (.ok (), w₂) ∧
    (restore ["p", "c"] "k" ["p"]).run.run w₂ = (.ok answer, w₃) ∧ Disagree w₃.files ["p", "c"] "k" := by
  obtain ⟨w₁, first, project₁, c, manifest, lists⟩ := save_nothing
  have paired₁ : Paired ["p", "c"] w₁.files := Paired.saved (w := freshWorld) paired_freshTree first
  obtain ⟨w₂, second, project₂, stored⟩ := save_manifest paired₁ project₁ manifest
  obtain ⟨answer, w₃, third, archive, former⟩ := restore_manifest (paired₁.saved second) project₂ stored
  refine ⟨w₁, w₂, w₃, answer, first, second, third, _, c, archive, former, ?_⟩
  intro key others
  cases (lists.unique others).2

/-- From an empty store in a project, a request may put a former manifest back; a save of a file whose name
starts with a backslash lists it by a name that its member does not have; and a save of the directory of
its key lists its own archive in the making. -/
theorem manifests_disagree :
    (∀ parts, parts ≠ [] → freshTree.entryAt? (["p", "c"] ++ parts) = none ∧
      filledTree.entryAt? (["p", "c"] ++ parts) = none) ∧
    (∃ w₁ w₂ w₃ : World Unit, ∃ answer,
      (save ["p", "c"] "k" ["f"] ["p"]).run.run freshWorld = (.ok (), w₁) ∧
      (save ["p", "c"] "k" ["c/_/k.manifest.json"] ["p"]).run.run w₁ = (.ok (), w₂) ∧
      (restore ["p", "c"] "k" ["p"]).run.run w₂ = (.ok answer, w₃) ∧ Disagree w₃.files ["p", "c"] "k") ∧
    (∃ w, (saveAside ["p", "c"] "k" ["\\x"] ["p"]).run.run filledWorld = (.ok (), w) ∧
      Disagree w.files ["p", "c"] "k") ∧
    ∃ w, (saveAside ["p", "c"] "k" ["c/_"] ["p"]).run.run filledWorld = (.ok (), w) ∧
      Disagree w.files ["p", "c"] "k" := by
  refine ⟨fun parts proper => ⟨nothing_freshTree parts proper, nothing_filledTree parts proper⟩,
    restore_over_store, ?_, ?_⟩
  · obtain ⟨w, run, archive, c, manifest, lists⟩ := saveAside_filledTree grow_backslash
    refine ⟨w, run, _, c, archive, manifest, fun other others => ?_⟩
    exact absurd (lists.unique others).2 (by decide)
  · obtain ⟨w, run, archive, c, manifest, lists⟩ := saveAside_filledTree grow_draft
    refine ⟨w, run, _, c, archive, manifest, fun other others => ?_⟩
    exact absurd (lists.unique others).2 (by decide)

theorem archives_and_manifests_agree_after_save : ∃ w : World Unit,
    (saveAside ["p", "c"] "k" ["f", "g"] ["p"]).run.run filledWorld = (.ok (), w) ∧
      (∃ members c, w.files.HasFile (artifactPlace ["p", "c"] "k") (.archive members) ∧
        w.files.HasFile (manifestPlace ["p", "c"] "k") c ∧ members.map (·.name) = ["f", "g"] ∧
        Manifest.Lists c "k" ["f", "g"]) ∧
      ∀ key, (∃ e, w.files.entryAt? (artifactPlace ["p", "c"] key) = some e) ↔
        ∃ e, w.files.entryAt? (manifestPlace ["p", "c"] key) = some e := by
  obtain ⟨w, run, archive, c, manifest, lists⟩ := saveAside_filledTree grow_files
  have fresh : Arises ["p", "c"] filledWorld := .empty wellFormed_filledTree rfl nothing_filledTree
  exact ⟨w, run, ⟨_, c, archive, manifest, by decide, lists⟩,
    (archives_and_manifests_agree (fresh.savedAside run)).1⟩

end Sample

end Conveyor.DirectoryStore
