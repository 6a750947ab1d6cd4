import Conveyor.Proofs.Cache.Draft
import Conveyor.Proofs.Cache.KeptName
import Conveyor.Proofs.Files.Addition

/-!
A file that is new beside a project without links. It changes neither what a cache selects in the project
nor what is read of it; so a save of a store that lies outside may make its archive aside.
-/

namespace Conveyor

namespace FileTree

section Beside

variable {t : FileTree} {project : Location} (wf : t.WellFormed)
  (directory : t.entryAt? project = some .directory)
  (noLinks : ∀ parts target, t.entryAt? (project ++ parts) ≠ some (.link target))
include wf directory noLinks

theorem placesBelow_within {l : Location} (inside : project <+: l) (plain : ∀ n ∈ l, IsPlain n) :
    ∀ place ∈ t.placesBelow l, project <+: place ∧ ∀ n ∈ place, IsPlain n := by
  intro place mem
  cases leads : t.follow l with
  | error r => simp [placesBelow, leads] at mem
  | ok real =>
      obtain ⟨parts, rfl, -, e, there⟩ := (mem_placesBelow leads place).mp mem
      obtain rfl := follow_of_linkFree plain (wf.linkFree_inside directory noLinks inside) leads
      exact ⟨inside.trans (List.prefix_append _ _), fun n hn => (wf.named _ _ there n hn).component.plain⟩

variable {new : Location} (outside : ¬ project <+: new)
include outside

/-- A place of the project does not lead out of it. -/
theorem elsewhere_of_inside {l : Location} (inside : project <+: l) (plain : ∀ n ∈ l, IsPlain n) :
    t.follow l ≠ .ok new := by
  intro leads
  exact outside (follow_of_linkFree plain (wf.linkFree_inside directory noLinks inside) leads ▸ inside)

variable (missing : t.entryAt? new = none) (c : Content) (m : Int)
include missing

theorem selectFiles_new {places : List Location}
    (within : ∀ l ∈ places, project <+: l ∧ ∀ n ∈ l, IsPlain n) :
    (t.set new (.file c m)).selectFiles project places = t.selectFiles project places := by
  induction places with
  | nil => rfl
  | cons l rest ih =>
      obtain ⟨⟨inside, plain⟩, later⟩ := List.forall_mem_cons.mp within
      have elsewhere := elsewhere_of_inside wf directory noLinks outside inside plain
      rw [selectFiles, selectFiles, isFile, isFile, ask_new missing c m elsewhere, nameInside, nameInside,
        resolve_new missing, ih later]

theorem listBelow_new {l : Location} (inside : project <+: l) (plain : ∀ n ∈ l, IsPlain n) :
    (t.set new (.file c m)).listBelow l = t.listBelow l := by
  have same : (t.set new (.file c m)).placesBelow l = t.placesBelow l := by
    unfold placesBelow
    rcases follow_new missing c m l with same | ⟨nothing, inTheWay⟩
    · rw [same]
      cases leads : t.follow l with
      | error r => rfl
      | ok real =>
          obtain rfl := follow_of_linkFree plain (wf.linkFree_inside directory noLinks inside) leads
          simp only [t.below_set (fun below => outside (inside.trans below))]
    · rw [nothing, inTheWay]
  rw [listBelow, listBelow, same]
  refine mapM_congr fun place mem => ?_
  obtain ⟨inside', plain'⟩ := placesBelow_within wf directory noLinks inside plain place mem
  rw [isDirectory, isDirectory, ask_new missing c m
    (elsewhere_of_inside wf directory noLinks outside inside' plain')]

/-- A cache selects the same in the project. -/
theorem selectPath_new (path : String) :
    (t.set new (.file c m)).selectPath project path = t.selectPath project path := by
  rw [selectPath, selectPath, resolve_new missing]
  cases leads : t.resolve (Location.ofPath project (Path.ofText path)) with
  | error f => rfl
  | ok place =>
      simp only [bind, Except.bind]
      by_cases inside : project <+: place
      · have plain : ∀ n ∈ place, IsPlain n :=
          (resolve_ok leads).1 ▸ t.isPlain_resolveFrom [] _ (by simp)
        have elsewhere := elsewhere_of_inside wf directory noLinks outside inside plain
        rw [hasPath, hasPath, isFile, isFile, ask_new missing c m elsewhere, ask_new missing c m elsewhere,
          nameInside, nameInside, resolve_new missing,
          listBelow_new wf directory noLinks outside missing c m inside plain]
        cases lists : t.listBelow place with
        | error f => rfl
        | ok places =>
            have within := placesBelow_within wf directory noLinks inside plain
            rw [← (listBelow_ok lists).1] at within
            simp only [selectFiles_new wf directory noLinks outside missing c m within]
      · have left : (Location.below? project place).isNone = true := below?_eq_none.mpr inside
        have noted : ∀ f, (t.set new (.file c m)).hasPath place = .error f ↔ t.hasPath place = .error f :=
          ask_new_eq_error missing c m place _
        simp only [left, if_true]
        cases now : (t.set new (.file c m)).hasPath place with
        | error f => simp only [(noted f).mp now]
        | ok b =>
            cases before : t.hasPath place with
            | error f => cases now.symm.trans ((noted f).mpr before)
            | ok b' => cases b <;> cases b' <;> rfl

end Beside

/-- What is read of files that stand there is the same beside a new one. -/
theorem membersOf_new {t : FileTree} {new : Location} (missing : t.entryAt? new = none) (c : Content)
    (m : Int) (wf : t.WellFormed) {selected : List Selected}
    (files : ∀ s ∈ selected, ∃ c', t.HasFile s.place c') :
    (t.set new (.file c m)).membersOf selected = t.membersOf selected := by
  induction selected with
  | nil => rfl
  | cons s rest ih =>
      obtain ⟨⟨c', m', file⟩, later⟩ := List.forall_mem_cons.mp files
      have names := wf.named _ _ file
      have parent := wf.above _ _ file
      have elsewhere : s.place ≠ new := by
        rintro itself
        cases (itself ▸ file).symm.trans missing
      have file' : (t.set new (.file c m)).entryAt? s.place = some (.file c' m') := by
        rw [entryAt?_new missing, if_neg elsewhere, file]
      have stays : (t.set new (.file c m)).followParent s.place = t.followParent s.place := by
        rcases locate_new missing c m false linkLimit [] s.place with same | ⟨nothing, -⟩
        · exact same
        · cases (wf.followParent_eq names parent).symm.trans nothing
      have reads : (t.set new (.file c m)).readFile s.place = t.readFile s.place := by
        have itself := wf.follow_eq names parent (by simp [file])
        have itself' : (t.set new (.file c m)).follow s.place = .ok s.place := by
          rcases follow_new missing c m s.place with same | ⟨nothing, -⟩
          · rw [same, itself]
          · cases itself.symm.trans nothing
        simp only [readFile, stat, itself, itself', bind, Except.bind, file, file']
      rw [membersOf, membersOf, stays, reads, ih later]
      simp only [wf.followParent_eq names parent, orFault, bind, Except.bind, file, file']

end FileTree

namespace DirectoryStore

open FileTree

section Unseen

variable {t : FileTree} {tree : Location} (wf : t.WellFormed)
  (directory : t.entryAt? tree = some .directory)
  (noLinks : ∀ parts target, t.entryAt? (tree ++ parts) ≠ some (.link target))
include wf directory noLinks

/-- No look of a save sees a draft that is made outside of a project without links. -/
theorem unseen_of_outside {draft : Location} (missing : t.entryAt? draft = none)
    (outside : ¬ tree <+: draft) (paths : List String) : Unseen t draft (saveLooks tree paths) := by
  refine ⟨missing, fun look mem c m => ?_⟩
  rcases List.mem_cons.mp mem with rfl | mem
  · simp only [resolve_new missing]
  · obtain ⟨path, -, rfl⟩ := List.mem_map.mp mem
    have real := wf.resolve_directory directory
    simp only [resolve_new missing, real, bind, Except.bind,
      selectPath_new wf directory noLinks outside missing c m]
    cases selects : t.selectPath tree path with
    | error f => rfl
    | ok selected =>
        have selection : t.selection tree [path] = .ok (selected ++ []) := by
          simp only [FileTree.selection, real, selectPaths, selects, bind, Except.bind]
          rfl
        have files : ∀ s ∈ selected, ∃ c', t.HasFile s.place c' := by
          intro s hs
          obtain ⟨-, c', -, -, file, -⟩ :=
            own_name wf directory noLinks real selection s (List.mem_append_left [] hs)
          exact ⟨c', file⟩
        dsimp only
        rw [membersOf_new missing c m wf files]

end Unseen

/-- A store in which the files of a key can be put, apart from the real place of a project without links. -/
structure Beside (t : FileTree) (root project : Location) (key : String) (tree : Location) : Prop where
  ready : Ready t root key
  unmade : t.entryAt? (draftPlace (artifactPlace root key)) = none
  real : t.resolve project = .ok tree
  directory : t.entryAt? tree = some .directory
  noLinks : ∀ parts target, t.entryAt? (tree ++ parts) ≠ some (.link target)
  apart : Apart root tree

/-- Beside a project without links a save may make its archive aside. -/
theorem Beside.run_saveAside {w : World σ} {root project tree : Location} {key : String}
    (beside : Beside w.files root project key tree) (paths : List String) :
    (saveAside root key paths project).run.run w = (save root key paths project).run.run w := by
  have ready := beside.ready
  refine DirectoryStore.run_saveAside ready.wellFormed.above fun tree' t draft real made leads => ?_
  obtain rfl := Except.ok.inj (beside.real.symm.trans real)
  obtain ⟨t', made', opened⟩ := ready.wellFormed.makeDirectories_eq ready.names ready.passable
  obtain rfl := (Prod.mk.inj (made.symm.trans made')).2
  have there := followParent_child (w := { w with files := t }) opened.wellFormed opened.itself
    ready.fits.isName_artifact.2
  rw [draftPlace_artifact] at leads
  obtain rfl := Except.ok.inj (there.symm.trans leads)
  have same := (ready.sameHome beside.apart opened).entries
  have directory : t.entryAt? tree = some .directory := by
    have itself := same []
    rwa [List.append_nil, beside.directory] at itself
  have noLinks : ∀ parts target, t.entryAt? (tree ++ parts) ≠ some (.link target) := by
    intro parts target
    rw [same]
    exact beside.noLinks parts target
  refine unseen_of_outside opened.wellFormed directory noLinks ?_ ?_ paths
  · rw [opened.other (not_above_keyDirectory root key key _), ← draftPlace_artifact, beside.unmade]
  · exact beside.apart.symm.outside (.inr ((List.prefix_append root _).trans (List.prefix_append _ _)))

end DirectoryStore

end Conveyor
