import Conveyor.Proofs.Cache.Miss
import Conveyor.Proofs.Cache.Overwrite
import Conveyor.Proofs.Cache.Packing

/-!
What a request makes of the project that its archive has just been made from. A member that is a file
goes back over the file that it was read from. A member that is a link takes the place of the file that
the link leads to; so the project stays as it was just where no selected path ends in a link.
-/

namespace Conveyor

namespace FileTree

/-- Every file at a directory and below it keeps its bytes, and every link its target. -/
def SameContents (t t' : FileTree) (dest : Location) : Prop :=
  ∀ parts e, t.entryAt? (dest ++ parts) = some e → e ≠ .directory →
    ∃ e', t'.entryAt? (dest ++ parts) = some e' ∧ e.Alike e'

theorem SameBelow.contents {t t' : FileTree} {dest : Location} (same : t.SameBelow t' dest) :
    t.SameContents t' dest := by
  intro parts e there _
  have alike := same parts
  rw [there] at alike
  generalize t'.entryAt? (dest ++ parts) = entry at alike
  cases alike with
  | some alike => exact ⟨_, rfl, alike⟩

end FileTree

open FileTree

section Packed

variable {t : FileTree} {project : Location} {selected : List Selected} {members : List Member}

theorem covers_of_packs (proper : ∀ l target, t.entryAt? l = some (.link target) → target ≠ "")
    (packs : List.Forall₂ (t.Packs project) selected members) :
    ∀ m ∈ members, (t.FilesBelow project).Covers m := by
  induction packs with
  | nil => simp
  | cons first _ ih =>
      refine List.forall_mem_cons.mpr ⟨?_, ih⟩
      cases first with
      | @file parts c _ _ file =>
          have there : t.FilesBelow project parts c := file
          exact .file there c
      | @link _ _ parts c _ link _ file =>
          have there : t.FilesBelow project parts c := file
          exact .link there (proper _ _ link)

theorem not_endsInLink_of_packs (packs : List.Forall₂ (t.Packs project) selected members)
    (bodies : ∀ m ∈ members, ∀ text, m.body ≠ .link text) : ∀ s ∈ selected, ¬ t.EndsInLink s.place := by
  induction packs with
  | nil => simp
  | cons first _ ih =>
      obtain ⟨itself, others⟩ := List.forall_mem_cons.mp bodies
      refine List.forall_mem_cons.mpr ⟨fun link => ?_, ih others⟩
      obtain ⟨target, body⟩ := first.link_iff.mpr link
      exact itself target body

/-- Selected paths of which none ends in a link are packed as files. -/
theorem files_of_packs (packs : List.Forall₂ (t.Packs project) selected members)
    (noLink : ∀ s ∈ selected, ¬ t.EndsInLink s.place) : ∃ files : List KeptFile,
      members = files.map KeptFile.member ∧
        ∀ parts c, Catch.ofFiles files parts c → t.FilesBelow project parts c := by
  induction packs with
  | nil => exact ⟨[], rfl, fun _ _ h => (List.not_mem_nil h).elim⟩
  | cons first _ ih =>
      obtain ⟨itself, others⟩ := List.forall_mem_cons.mp noLink
      obtain ⟨files, rfl, held⟩ := ih others
      cases first with
      | @file parts c _ _ file =>
          refine ⟨(parts, c) :: files, rfl, fun p d h => ?_⟩
          rcases List.mem_cons.mp h with h | h
          · cases h
            exact file
          · exact held p d h
      | link place link _ _ => exact absurd ⟨_, _, place, link⟩ itself

/-- An extraction that leaves the files as they were puts no link in the place of one. -/
theorem Tar.Listing.no_links_of_sameContents (wf : t.WellFormed)
    (directory : t.entryAt? project = some .directory)
    (covers : ∀ m ∈ members, (t.FilesBelow project).Covers m) {t' : FileTree}
    (run : ((Listing.whole members).extract project).run.run t = (.ok (), t'))
    (same : t.SameContents t' project) : ∀ m ∈ members, ∀ text, m.body ≠ .link text := by
  obtain ⟨⟨⟩, t₁, placed, run⟩ := run_ok_of_bind_ok run
  cases run
  obtain ⟨-, linked⟩ := (Listing.whole members).run_placeAll_covering wf directory []
    (Rooted.keeps_refl wf.above) covers placed
  intro m hm text body
  obtain ⟨other, link⟩ := linked m hm text body
  cases covers m hm with
  | file _ _ => cases body
  | @link parts c _ there _ =>
      have goes : target project ("/".intercalate parts) = project ++ parts :=
        (KeptFile.place_eq (f := (parts, c)) (wf.coherent directory) there project).2
      rw [Member.name, goes] at link
      obtain ⟨n, file⟩ := there
      obtain ⟨e, now, alike⟩ := same parts _ file (by simp)
      rw [link] at now
      cases now
      cases alike

end Packed

namespace DirectoryStore

variable {σ : Type} {w w' : World σ} {root project : Location} {key : String}

theorem SavedTo.entries {t t' : FileTree} {members : List Member} (saved : SavedTo t t' root key members)
    (apart : Apart root project) (parts : List String) :
    t'.entryAt? (project ++ parts) = t.entryAt? (project ++ parts) := by
  have outside : ∀ rest, ¬ project ++ parts <+: root ++ rest := fun rest => (apart.below rest parts).2
  rw [saved.others]
  · exact if_neg (outside _)
  · exact fun h => outside _ ⟨[], (List.append_nil _).trans h⟩
  · exact fun h => outside _ ⟨[], (List.append_nil _).trans h⟩

/-- A hit is an extraction to the end. -/
theorem extracted_of_hit {content : Content} {reason : String} {t' : FileTree}
    (h : (extract key project content).run.run w =
      (.ok ⟨true, key, reason⟩, { w with files := t' })) :
    ((Tar.Listing.ofContent content).extract project).run.run w.files = (.ok (), t') := by
  rw [extract_run] at h
  generalize ((Tar.Listing.ofContent content).extract project).run.run w.files = outcome at h ⊢
  obtain ⟨answer, t₁⟩ := outcome
  cases answer with
  | ok _ =>
      cases h
      rfl
  | error f =>
      cases f with
      | reading r => cases r <;> cases h
      | refused | nulInName | noSuchMember => cases h

/-- A request for packed files whose archive a save has stored. -/
theorem Ready.restore_saved (ready : Ready w.files root key) (apart : Apart root project)
    (directory : w.files.entryAt? project = some .directory)
    (proper : ∀ l target, w.files.entryAt? l = some (.link target) → target ≠ "") {t : FileTree}
    (opened : w.files.Opened t (keyDirectory root key)) {selected : List Selected} {members : List Member}
    (packs : List.Forall₂ (t.Packs project) selected members)
    (saved : SavedTo w.files w'.files root key members) :
    ((∃ reason t', (restore root key project).run.run w' =
        (.ok ⟨true, key, reason⟩, { w' with files := t' }) ∧ w'.files.SameContents t' project) →
      ∀ s ∈ selected, ¬ t.EndsInLink s.place) ∧
    ((∀ s ∈ selected, ¬ t.EndsInLink s.place) → ∃ reason t', (restore root key project).run.run w' =
        (.ok ⟨true, key, reason⟩, { w' with files := t' }) ∧ w'.files.SameBelow t' project) := by
  have wf := saved.wellFormed
  have before := (ready.sameHome apart opened).entries
  have after := saved.entries apart
  have held : t.FilesBelow project = w'.files.FilesBelow project := by
    funext parts c
    simp only [FilesBelow, HasFile, before, after]
  have itself : w'.files.entryAt? project = some .directory := by
    have itself := after []
    rwa [List.append_nil, directory] at itself
  have covers := covers_of_packs
    (fun l target link => proper l target ((opened.sameLinks ready.passable l target).mpr link)) packs
  rw [held] at covers
  have listing : Tar.Listing.ofContent (.archive members) = .whole members := rfl
  obtain ⟨modified, stored⟩ := saved.artifact
  rw [restore_stored wf stored (wf.resolve_directory itself)]
  constructor
  · rintro ⟨reason, t', hit, same⟩
    have run := extracted_of_hit hit
    exact not_endsInLink_of_packs packs (Tar.Listing.no_links_of_sameContents wf itself covers run same)
  · intro noLink
    obtain ⟨files, rfl, ours⟩ := files_of_packs packs noLink
    rw [held] at ours
    have coherent := (wf.coherent itself).mono ours
    have receives := (wf.receives itself).mono ours
    obtain ⟨t', run, unpacked⟩ := Tar.Listing.run_extract wf coherent receives
    rw [extract_run, listing, run]
    refine ⟨_, t', rfl, (unpacked.sameBelow_iff wf receives coherent).mpr fun f hf => ?_⟩
    exact ⟨f.2, ours f.1 f.2 hf, rfl⟩

section AfterSave

variable (ready : Ready w.files root key) (apart : Apart root project)
  (directory : w.files.entryAt? project = some .directory)
  (noBackslash : ∀ parts e, w.files.entryAt? (project ++ parts) = some e → ∀ c ∈ parts, '\\' ∉ c.toList)
  {paths : List String} (saved : (save root key paths project).run.run w = (.ok (), w'))
include ready apart directory noBackslash saved

/-- A save that succeeds has packed what it selected once the directory of the key was open. -/
theorem Ready.packed_of_save : ∃ t selected members,
    w.files.makeDirectories (keyDirectory root key) = (.ok (), t) ∧
      w.files.Opened t (keyDirectory root key) ∧ t.selection project paths = .ok selected ∧
      List.Forall₂ (t.Packs project) selected members ∧ SavedTo w.files w'.files root key members := by
  obtain ⟨t, made, opened, unselected, done⟩ :=
    ready.run_save_opened (ready.wellFormed.resolve_directory directory) paths
  have same := (ready.sameHome apart opened).entries
  have itself : t.entryAt? project = some .directory := by
    have itself := same []
    rwa [List.append_nil, directory] at itself
  have real := opened.wellFormed.resolve_directory itself
  cases hsel : t.selection project paths with
  | error fault =>
      rw [unselected fault hsel] at saved
      cases saved
  | ok selected =>
      obtain ⟨unread, done⟩ := done selected hsel
      cases hread : t.membersOf selected with
      | error fault =>
          rw [unread fault hread] at saved
          cases saved
      | ok members =>
          obtain ⟨t', run, stored, -⟩ := done members hread
          rw [run] at saved
          cases saved
          refine ⟨t, selected, members, made, opened, hsel, ?_, stored⟩
          exact packs_membersOf itself (fun parts e h => noBackslash parts e (same parts ▸ h))
            opened.wellFormed (selection_isSelected real hsel) hread

/-- A request for what has just been saved is a hit that leaves every file and link of the project as it
was just where no selected path ends in a link. Then nothing in the project is changed at all. -/
theorem restore_after_save_iff
    (proper : ∀ l target, w.files.entryAt? l = some (.link target) → target ≠ "") :
    ∃ t selected, w.files.makeDirectories (keyDirectory root key) = (.ok (), t) ∧
      t.selection project paths = .ok selected ∧
      ((∃ reason t', (restore root key project).run.run w' =
          (.ok ⟨true, key, reason⟩, { w' with files := t' }) ∧ w'.files.SameContents t' project) ↔
        ∀ s ∈ selected, ¬ t.EndsInLink s.place) ∧
      ((∀ s ∈ selected, ¬ t.EndsInLink s.place) → ∃ reason t', (restore root key project).run.run w' =
          (.ok ⟨true, key, reason⟩, { w' with files := t' }) ∧ w'.files.SameBelow t' project) := by
  obtain ⟨t, selected, members, made, opened, hsel, packs, stored⟩ :=
    ready.packed_of_save apart directory noBackslash saved
  obtain ⟨only, returned⟩ := ready.restore_saved apart directory proper opened packs stored
  refine ⟨t, selected, made, hsel, ⟨only, fun noLink => ?_⟩, returned⟩
  obtain ⟨reason, t', run, same⟩ := returned noLink
  exact ⟨reason, t', run, same.contents⟩

end AfterSave

section Sample

/-- A project with a directory in which a link leads to a file beside it. -/
def linkedTree : FileTree :=
  (((((({} : FileTree).set ["cache"] .directory).set ["cache", "_"] .directory).set
    ["project"] .directory).set ["project", "real.txt"] (.file (.bytes [0x78]) 0)).set
    ["project", "d"] .directory).set ["project", "d", "l"] (.link "../real.txt")

def linkedWorld : World Unit := ⟨linkedTree, [], ()⟩

theorem entryAt?_linkedTree {l : Location} {e : Entry} (h : linkedTree.entryAt? l = some e) :
    l = ["project", "d", "l"] ∧ e = .link "../real.txt" ∨
      (∀ target, e ≠ .link target) ∧ ∀ c ∈ l, '\\' ∉ c.toList := by
  rcases FileTree.mem_entries_of_entryAt? h with ⟨rfl, rfl⟩ | mem
  · simp
  · simp [linkedTree, FileTree.set, Table.put] at mem
    rcases mem with ⟨rfl, rfl⟩ | ⟨rfl, rfl⟩ | ⟨rfl, rfl⟩ | ⟨rfl, rfl⟩ | ⟨rfl, rfl⟩ | ⟨rfl, rfl⟩ <;> simp

theorem wellFormed_linkedTree : linkedTree.WellFormed := FileTree.wellFormed_of_entries (by decide)

theorem ready_linkedTree : Ready linkedTree ["cache"] "k" where
  wellFormed := wellFormed_linkedTree
  base := rfl
  directory := .inr rfl
  artifact h := by cases h
  manifest h := by cases h
  fits := ⟨by decide, by decide⟩

theorem apart_linkedTree : Apart ["cache"] ["project"] := ⟨by decide, by decide⟩

theorem noBackslash_linkedTree (parts : List String) (e : Entry)
    (h : linkedTree.entryAt? (["project"] ++ parts) = some e) : ∀ c ∈ parts, '\\' ∉ c.toList := by
  intro c hc
  rcases entryAt?_linkedTree h with ⟨h, -⟩ | ⟨-, h⟩
  · cases h
    revert c
    decide
  · exact h c (List.mem_append_right _ hc)

theorem proper_linkedTree (l : Location) (target : String)
    (h : linkedTree.entryAt? l = some (.link target)) : target ≠ "" := by
  rcases entryAt?_linkedTree h with ⟨-, h⟩ | ⟨h, -⟩
  · cases h
    decide
  · exact absurd rfl (h target)

theorem real_linkedTree : linkedTree.resolve ["project"] = .ok ["project"] :=
  wellFormed_linkedTree.resolve_directory rfl

theorem followParent_linkedTree :
    linkedTree.followParent ["project", "d", "l"] = .ok ["project", "d", "l"] :=
  wellFormed_linkedTree.followParent_eq (by decide) rfl

theorem target_linkedTree : "../real.txt".startsWith "/" = false ∧
    pathParts "../real.txt" = ["..", "real.txt"] := by
  refine ⟨?_, rfl⟩
  rw [String.startsWith_string_eq_false_iff]
  decide

theorem follow_linkedTree : linkedTree.follow ["project", "d", "l"] = .ok ["project", "real.txt"] := by
  simp [FileTree.follow, FileTree.locate, FileTree.isDirectoryAt, FileTree.entryAt?, FileTree.linkStart,
    linkedTree, FileTree.set, Table.put, Table.get?, FileTree.linkLimit, target_linkedTree, Location.parent]
  decide

theorem resolve_linkedTree :
    linkedTree.resolve ["project", "d", "l"] = .ok ["project", "real.txt"] := by
  have real : linkedTree.resolveFrom [] [] ["project", "d", "l"] = (["project", "real.txt"], true) := by
    simp [FileTree.resolveFrom, FileTree.entryAt?, FileTree.linkStart, linkedTree, FileTree.set, Table.put,
      Table.get?, target_linkedTree, Location.parent]
  have there : linkedTree.follow ["project", "real.txt"] = .ok ["project", "real.txt"] :=
    wellFormed_linkedTree.follow_eq (by decide) rfl fun _ h => by cases h
  simp only [FileTree.resolve, FileTree.noNul_of_names (l := ["project", "d", "l"]) (by decide),
    Bool.false_eq_true, if_false, real, there]

/-- The link is selected below its directory, under the name of the file that it leads to. -/
theorem selection_linkedTree : linkedTree.selection ["project"] ["d"] =
    .ok [⟨["project", "d", "l"], "real.txt"⟩] := by
  have directory : linkedTree.entryAt? ["project", "d"] = some .directory := rfl
  have place : linkedTree.resolve (Location.ofPath ["project"] (Path.ofText "d")) = .ok ["project", "d"] :=
    wellFormed_linkedTree.resolve_directory directory
  have there : linkedTree.hasPath ["project", "d"] = .ok true :=
    wellFormed_linkedTree.ask_eq directory (by simp) _
  have notFile : linkedTree.isFile ["project", "d"] = .ok false :=
    wellFormed_linkedTree.ask_eq directory (by simp) _
  have asked (p : Entry → Bool) : ∃ c m, linkedTree.ask ["project", "d", "l"] p = .ok (p (.file c m)) := by
    rw [FileTree.ask, FileTree.noNul_of_names (by decide), FileTree.stat, follow_linkedTree]
    exact ⟨_, _, rfl⟩
  have isFile : linkedTree.isFile ["project", "d", "l"] = .ok true := by
    obtain ⟨c, m, h⟩ := asked _
    exact h
  have itself : linkedTree.follow ["project", "d"] = .ok ["project", "d"] :=
    wellFormed_linkedTree.follow_eq (by decide) rfl fun _ h => by cases h
  have below : linkedTree.listBelow ["project", "d"] = .ok [["project", "d", "l"]] := by
    have places : linkedTree.placesBelow ["project", "d"] = [["project", "d", "l"]] := by
      rw [FileTree.placesBelow, itself]
      simp [FileTree.below, linkedTree, FileTree.set, Table.put, Location.below?]
    rw [← places]
    refine FileTree.listBelow_eq_ok fun place hplace => ?_
    obtain rfl := List.mem_singleton.mp (places ▸ hplace)
    obtain ⟨c, m, h⟩ := asked _
    exact ⟨_, h⟩
  have name : linkedTree.nameInside ["project"] ["project", "d", "l"] = .ok "real.txt" := by
    have kept : keptName ["real.txt"] = "real.txt" := FileTree.keptName_eq (by simp) (by decide)
    rw [FileTree.nameInside, resolve_linkedTree]
    exact congrArg Except.ok kept
  simp [FileTree.selection, FileTree.selectPaths, FileTree.selectPath, FileTree.selectFiles, real_linkedTree,
    place, there, notFile, below, isFile, name, bind, Except.bind, Location.below?]
  rfl

theorem makeDirectories_linkedTree :
    linkedTree.makeDirectories (keyDirectory ["cache"] "k") = (.ok (), linkedTree) :=
  wellFormed_linkedTree.makeDirectories_old rfl

theorem save_linkedWorld :
    ∃ w', (save ["cache"] "k" ["d"] ["project"]).run.run linkedWorld = (.ok (), w') := by
  obtain ⟨t, made, -, -, done⟩ :=
    Ready.run_save_opened (w := linkedWorld) ready_linkedTree real_linkedTree ["d"]
  cases made.symm.trans makeDirectories_linkedTree
  have read : linkedTree.membersOf [⟨["project", "d", "l"], "real.txt"⟩] =
      .ok [.mk "real.txt" (.link "../real.txt")] := by
    rw [FileTree.membersOf, followParent_linkedTree]
    rfl
  obtain ⟨t', run, -⟩ := (done _ selection_linkedTree).2 _ read
  exact ⟨_, run⟩

theorem restore_replaces_file_by_link : ∃ w',
    (save ["cache"] "k" ["d"] ["project"]).run.run linkedWorld = (.ok (), w') ∧
      ¬ ∃ reason t', (restore ["cache"] "k" ["project"]).run.run w' =
        (.ok ⟨true, "k", reason⟩, { w' with files := t' }) ∧ w'.files.SameContents t' ["project"] := by
  obtain ⟨w', saved⟩ := save_linkedWorld
  obtain ⟨t, selected, made, selects, same, -⟩ := restore_after_save_iff (w := linkedWorld) ready_linkedTree
    apart_linkedTree rfl noBackslash_linkedTree saved proper_linkedTree
  cases made.symm.trans makeDirectories_linkedTree
  cases selects.symm.trans selection_linkedTree
  refine ⟨w', saved, fun returned => ?_⟩
  exact same.mp returned _ List.mem_cons_self ⟨_, _, followParent_linkedTree, rfl⟩

/-- A project may be changed by a request for what has just been saved, although no link leads out
of it. -/
theorem restore_after_save_may_change_project :
    ¬ ∀ (w w' : World Unit) (root project : Location) (key : String) (paths : List String),
      Ready w.files root key → Apart root project → w.files.entryAt? project = some .directory →
      (∀ parts e, w.files.entryAt? (project ++ parts) = some e → ∀ c ∈ parts, '\\' ∉ c.toList) →
      (∀ parts target, w.files.entryAt? (project ++ parts) = some (.link target) → target ≠ "" ∧
        ∃ rest, w.files.resolve (project ++ parts) = .ok (project ++ rest)) →
      (save root key paths project).run.run w = (.ok (), w') →
      ∃ reason t', (restore root key project).run.run w' =
        (.ok ⟨true, key, reason⟩, { w' with files := t' }) ∧ w'.files.SameContents t' project := by
  intro returns
  obtain ⟨w', saved⟩ := save_linkedWorld
  obtain ⟨t, selected, members, made, opened, selects, packs, stored⟩ :=
    Ready.packed_of_save (w := linkedWorld) ready_linkedTree apart_linkedTree rfl noBackslash_linkedTree
      saved
  cases made.symm.trans makeDirectories_linkedTree
  cases selects.symm.trans selection_linkedTree
  have returned := returns linkedWorld w' ["cache"] ["project"] "k" ["d"] ready_linkedTree apart_linkedTree
    rfl noBackslash_linkedTree ?_ saved
  · exact (Ready.restore_saved (w := linkedWorld) ready_linkedTree apart_linkedTree rfl proper_linkedTree
      opened packs stored).1 returned _ List.mem_cons_self ⟨_, _, followParent_linkedTree, rfl⟩
  · intro parts target link
    refine ⟨proper_linkedTree _ _ link, ?_⟩
    rcases entryAt?_linkedTree link with ⟨place, -⟩ | ⟨h, -⟩
    · cases place
      exact ⟨["real.txt"], resolve_linkedTree⟩
    · exact absurd rfl (h target)

end Sample

end DirectoryStore

end Conveyor
