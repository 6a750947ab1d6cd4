import Conveyor.Proofs.Cache.Draft

/-!
The two files of a key after a save that makes its archive aside. The save may find the archive in the
making: the manifest then lists it, and no other name but those that the members were made from.
-/

namespace Conveyor

variable {σ : Type}

namespace DirectoryStore

open FileTree

variable {root : Location}

/-- What the looks of a save find beside the draft is selected there, with a member under its name. -/
theorem FoundBeside.isSelected {w : World σ} {draft tree : Location} {paths : List String}
    {p : Selected × Member} (found : FoundBeside w draft (saveLooks tree paths) p) :
    ∃ written real, (drafted w draft written).files.IsSelected real p.1 ∧
      p.2.name = Tar.memberName p.1.name := by
  obtain ⟨look, mem, written, more, looked, hp⟩ := found
  rcases List.mem_cons.mp mem with rfl | mem
  · obtain ⟨real, -, looked⟩ := ok_of_bind_ok looked
    cases looked
    cases hp
  · obtain ⟨path, -, rfl⟩ := List.mem_map.mp mem
    obtain ⟨real, -, looked⟩ := ok_of_bind_ok looked
    obtain ⟨selected, selects, looked⟩ := ok_of_bind_ok looked
    obtain ⟨members, packs, looked⟩ := ok_of_bind_ok looked
    cases looked
    exact ⟨written, real, selectPath_isSelected selects p.1 (List.of_mem_zip hp).1,
      (List.forall₂_iff_zip.mp (names_of_membersOf packs)).2 hp⟩

/-- A selected path at its real place is told by the name that it is kept under. -/
theorem tellsDraft_of_isSelected {t : FileTree} {own project : Location} {s : Selected}
    (itself : t.resolve own = .ok own) (selected : t.IsSelected project s) (place : s.place = own) :
    TellsDraft own s.name := by
  have name := selected.name
  rw [place, nameInside, itself] at name
  simp only [bind, Except.bind] at name
  split at name
  · rename_i parts inside
    exact ⟨project, parts, (below?_eq_some project own parts).mp inside, (Except.ok.inj name).symm⟩
  · cases name

theorem Names.of_found {own : Location} {found : List (Selected × Member)}
    (named : ∀ p ∈ found, p.2.name = Tar.memberName p.1.name)
    (told : ∀ p ∈ found, p.1.place = own → TellsDraft own p.1.name) :
    Names own ((found.map (·.1)).map (·.name)) (packed own found) := by
  induction found with
  | nil => exact .nil
  | cons p rest ih =>
      obtain ⟨name, names⟩ := List.forall_mem_cons.mp named
      obtain ⟨tells, others⟩ := List.forall_mem_cons.mp told
      have later := ih names others
      by_cases itself : p.1.place = own
      · have skips : packed own (p :: rest) = packed own rest := by simp [packed, itself]
        rw [skips]
        exact .draft (tells itself) later
      · have packs : packed own (p :: rest) = p.2 :: packed own rest := by simp [packed, itself]
        rw [packs]
        exact .member name later

/-- Where the looks of a save come through, what they have found is put in place with its manifest. -/
theorem Ready.run_saveAside_made {w : World σ} {t : FileTree} {project tree : Location} {key : String}
    {paths : List String} {found : List (Selected × Member)} (ready : Ready w.files root key)
    (opened : w.files.Opened t (keyDirectory root key))
    (missing : t.entryAt? (draftPlace (artifactPlace root key)) = none)
    (approached : (approach root key project).run.run w =
      (.ok (tree, draftPlace (artifactPlace root key)), { w with files := t }))
    (grown : ∃ w₁, (grow (draftPlace (artifactPlace root key)) (draftPlace (artifactPlace root key)) []
      (saveLooks tree paths)).run.run
        (drafted { w with files := t } (draftPlace (artifactPlace root key)) []) = (.ok found, w₁)) :
    ∃ t', (saveAside root key paths project).run.run w = (.ok (), { w with files := t' }) ∧
      SavedTo w.files t' root key (packed (draftPlace (artifactPlace root key)) found) ∧
      ∃ now, t'.HasFile (manifestPlace root key)
        (.ofText (Manifest.text ⟨key, paths, (found.map (·.1)).map (·.name), now⟩)) := by
  obtain ⟨w₁, grown⟩ := grown
  have rooted : t.Rooted := opened.wellFormed.above
  have made := run_makeDraft_of_missing (w := { w with files := t }) rooted missing
    (draftPlace (artifactPlace root key)) (saveLooks tree paths)
  rw [grown] at made
  obtain ⟨t', done, saved, told⟩ := ready.run_deposit opened paths (found.map (·.1))
    (packed (draftPlace (artifactPlace root key)) found)
  refine ⟨t', ?_, saved, told⟩
  rw [saveAside, gatherAside, bind_assoc, run_bind_ok approached, bind_assoc, run_bind_ok made, pure_bind,
    depositAside, run_bind_ok (Action.run_onFiles _ _)]
  simp only [drafted, rooted.removeTree_set missing]
  exact done

namespace Paired

variable {w w' : World σ} (paired : Paired root w.files) {key : String}
include paired

/-- A save comes to its files with the directory of the key open and the draft at its own place. -/
theorem run_approach (key : String) (project : Location) :
    (∃ f t, (approach root key project).run.run w = (.error f, { w with files := t }) ∧ Paired root t) ∨
      ∃ tree t, (approach root key project).run.run w =
          (.ok (tree, draftPlace (artifactPlace root key)), { w with files := t }) ∧
        w.files.Opened t (keyDirectory root key) ∧ IsName (StoredName.ofKey key).directory ∧
        IsName ((StoredName.ofKey key).artifact ++ draftEnding) := by
  rcases DirectoryStore.run_approach w root project key with
    ⟨f, t, run, opens⟩ | ⟨tree, draft, t, run, -, made, leads⟩
  · refine .inl ⟨f, t, run, ?_⟩
    rcases opens with rfl | rfl
    · exact paired
    · rcases makeDirectories_cases paired.wellFormed paired.base (paired.directory key) with
        ⟨t, made, opened, -⟩ | ⟨-, f, refused⟩
      · rw [made]
        exact paired.opened opened
      · rw [refused]
        exact paired
  · rcases makeDirectories_cases paired.wellFormed paired.base (paired.directory key) with
      ⟨t', made', opened, name⟩ | ⟨-, f, refused⟩
    · cases made.symm.trans made'
      have asked := run_askDraft_cases (w := { w with files := t }) opened.wellFormed opened.itself key
        artifactEnding (by decide) (by decide)
      rw [← StoredName.artifact, ← artifactPlace_eq, Action.run_ask, leads] at asked
      rcases asked with ⟨own, fits⟩ | ⟨f, refused⟩
      · cases own
        refine .inr ⟨tree, t, ?_, opened, name, fits⟩
        rw [run, draftPlace_artifact]
      · cases refused
    · cases made.symm.trans refused

/-- A save that fails before it puts anything in its place leaves the pairs as they are. -/
theorem notSavedAside {paths : List String} {project : Location} {f : Fault}
    (failed : (gatherAside root key paths project).run.run w = (.error f, w')) : Paired root w'.files := by
  rw [gatherAside] at failed
  rcases paired.run_approach key project with ⟨f', t, run, stays⟩ | ⟨tree, t, run, opened, -⟩
  · cases failed.symm.trans (run_bind_error run)
    exact stays
  · rw [run_bind_ok run] at failed
    rcases run_makeDraft (w := { w with files := t }) opened.wellFormed.above
      (draftPlace (artifactPlace root key)) (draftPlace (artifactPlace root key))
      (saveLooks tree paths) with
      ⟨f', stops⟩ | ⟨found, done, -⟩
    · cases failed.symm.trans (run_bind_error stops)
      exact paired.opened opened
    · cases failed.symm.trans (run_bind_ok done)

/-- A save that makes its archive aside leaves an archive with a manifest that lists what was found. -/
theorem savedAside {paths : List String} {project : Location}
    (run : (saveAside root key paths project).run.run w = (.ok (), w')) : Paired root w'.files := by
  obtain ⟨made, w₁, gathered, deposits⟩ := run_ok_of_bind_ok run
  rw [gatherAside] at gathered
  rcases paired.run_approach key project with ⟨f, t, fails, -⟩ | ⟨tree, t, opens, opened, directory, fits⟩
  · cases gathered.symm.trans (run_bind_error fails)
  rw [run_bind_ok opens] at gathered
  generalize own : draftPlace (artifactPlace root key) = draft at gathered
  have rooted : t.Rooted := opened.wellFormed.above
  rcases run_makeDraft (w := { w with files := t }) rooted draft draft (saveLooks tree paths) with
    ⟨f, stops⟩ | ⟨found, done, missing, beside⟩
  · cases gathered.symm.trans (run_bind_error stops)
  cases gathered.symm.trans (run_bind_ok done)
  have itself : t.resolve draft = .ok draft := by
    have place := own.symm.trans (draftPlace_artifact root key)
    rw [place] at missing ⊢
    have names := names_child (w := { w with files := t }) opened.wellFormed opened.itself fits
    have free := opened.wellFormed.linkFree opened.itself (by simp)
    exact FileTree.resolve_eq names (free.concat_of_none missing)
  have named : Names draft ((found.map (·.1)).map (·.name)) (packed draft found) := by
    refine .of_found (fun p hp => ?_) fun p hp here => ?_
    · obtain ⟨-, -, -, name⟩ := (beside p hp).isSelected
      exact name
    · obtain ⟨written, real, selected, -⟩ := (beside p hp).isSelected
      exact tellsDraft_of_isSelected ((resolve_new missing _ _ draft).trans itself) selected here
  rw [depositAside, run_bind_ok (Action.run_onFiles _ _)] at deposits
  simp only [drafted, rooted.removeTree_set missing, own] at deposits
  exact paired.deposited opened directory fits (own.symm ▸ named) deposits

end Paired

end DirectoryStore

end Conveyor
