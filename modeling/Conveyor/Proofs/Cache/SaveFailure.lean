import Conveyor.Proofs.Cache.Directory
import Conveyor.Proofs.Cache.Enumeration

/-!
When a save fails. What is selected can always be read; so where the store itself can be written to, a
save fails just as the enumeration of its files does, whatever the tree and the paths.
-/

namespace Conveyor

variable {σ : Type}

/-- The same stands at a place of two trees, up to what a file holds. -/
inductive Entry.Like : Option Entry → Option Entry → Prop
  | none : Like none none
  | directory : Like (some .directory) (some .directory)
  | file (c c' : Content) (m m' : Int) : Like (some (.file c m)) (some (.file c' m'))
  | link (target : String) : Like (some (.link target)) (some (.link target))

namespace FileTree

/-- The same stands everywhere in two trees, up to what files hold. -/
def Alike (t t' : FileTree) : Prop := ∀ l, Entry.Like (t.entryAt? l) (t'.entryAt? l)

theorem Alike.refl (t : FileTree) : t.Alike t := fun l => by
  match t.entryAt? l with
  | none => exact .none
  | some .directory => exact .directory
  | some (.file c m) => exact .file c c m m
  | some (.link target) => exact .link target

section Alike

variable {t t' : FileTree} (alike : t.Alike t')
include alike

theorem Alike.none {l : Location} (h : t.entryAt? l = none) : t'.entryAt? l = none := by
  have like := alike l
  rw [h] at like
  generalize t'.entryAt? l = e at like ⊢
  cases like
  rfl

theorem Alike.link {l : Location} {target : String} (h : t.entryAt? l = some (.link target)) :
    t'.entryAt? l = some (.link target) := by
  have like := alike l
  rw [h] at like
  generalize t'.entryAt? l = e at like ⊢
  cases like
  rfl

theorem Alike.notLink {l : Location} {e : Entry} (h : t.entryAt? l = some e)
    (notLink : ∀ target, e ≠ .link target) :
    ∃ e', t'.entryAt? l = some e' ∧ ∀ target, e' ≠ .link target := by
  have like := alike l
  rw [h] at like
  generalize t'.entryAt? l = e at like ⊢
  cases like with
  | directory => exact ⟨_, rfl, by simp⟩
  | file => exact ⟨_, rfl, by simp⟩
  | link target => exact absurd rfl (notLink target)

theorem Alike.isDirectoryAt_eq (l : Location) : t.isDirectoryAt l = t'.isDirectoryAt l := by
  have like := alike l
  unfold isDirectoryAt
  generalize t.entryAt? l = e at like ⊢
  generalize t'.entryAt? l = e' at like ⊢
  cases like <;> rfl

/-- Paths lead to the same places. -/
theorem Alike.locate_eq (last : Bool) (links : Nat) (place : Location) (parts : List String) :
    t.locate last links place parts = t'.locate last links place parts := by
  fun_induction t.locate last links place parts with
  | case1 links place => rw [locate]
  | case2 links place c rest directory =>
      rw [locate, ← alike.isDirectoryAt_eq, if_pos directory]
  | case3 links place c rest directory dot ih =>
      rw [locate, ← alike.isDirectoryAt_eq, if_neg directory, if_pos dot, ih]
  | case4 links place rest directory dot ih =>
      rw [locate, ← alike.isDirectoryAt_eq, if_neg directory, if_neg dot, if_pos rfl, ih]
  | case5 links place c rest directory dot dots long =>
      rw [locate, ← alike.isDirectoryAt_eq, if_neg directory, if_neg dot, if_neg dots, if_pos long]
  | case6 links place c rest directory dot dots short here missing ended =>
      rw [locate, ← alike.isDirectoryAt_eq, if_neg directory, if_neg dot, if_neg dots, if_neg short]
      simp only [alike.none missing, if_pos ended, here]
  | case7 links place c rest directory dot dots short here missing goesOn =>
      rw [locate, ← alike.isDirectoryAt_eq, if_neg directory, if_neg dot, if_neg dots, if_neg short]
      simp only [show t'.entryAt? (place ++ [c]) = Option.none from alike.none missing, if_neg goesOn]
  | case8 links place c rest directory dot dots short here target link itself =>
      rw [locate, ← alike.isDirectoryAt_eq, if_neg directory, if_neg dot, if_neg dots, if_neg short]
      simp only [alike.link link, if_pos itself, here]
  | case9 place c rest directory dot dots short here target link followed =>
      rw [locate, ← alike.isDirectoryAt_eq, if_neg directory, if_neg dot, if_neg dots, if_neg short]
      simp only [show t'.entryAt? (place ++ [c]) = _ from alike.link link, if_neg followed]
  | case10 place c rest directory dot dots short here target link followed links ih =>
      rw [locate, ← alike.isDirectoryAt_eq, if_neg directory, if_neg dot, if_neg dots, if_neg short]
      simp only [show t'.entryAt? (place ++ [c]) = _ from alike.link link, if_neg followed, ih]
  | case11 links place c rest directory dot dots short here e notLink there ih =>
      obtain ⟨e', there', notLink'⟩ := alike.notLink there notLink
      rw [locate, ← alike.isDirectoryAt_eq, if_neg directory, if_neg dot, if_neg dots, if_neg short, ih]
      cases e' with
      | link target => exact absurd rfl (notLink' target)
      | directory | file _ _ => simp only [there', here]

theorem Alike.set_file {l : Location} (hl : l ≠ []) (c c' : Content) (m m' : Int) :
    (t.set l (.file c m)).Alike (t'.set l (.file c' m')) := by
  intro place
  rw [entryAt?_set t hl, entryAt?_set t' hl]
  split
  · exact .file c c' m m'
  · exact alike place

/-- Whether a file can be put in a place does not depend on what files hold. -/
theorem Alike.replaceFile {l : Location} {c : Content} {m : Int} {t₁ : FileTree}
    (h : t.replaceFile l c m = .ok t₁) (c' : Content) (m' : Int) :
    ∃ t₁', t'.replaceFile l c' m' = .ok t₁' ∧ t₁.Alike t₁' := by
  obtain ⟨place, leads, put⟩ := ok_of_bind_ok h
  have free : t.entryAt? place ≠ some .directory := by
    intro directory
    simp only [directory] at put
    cases put
  have free' : t'.entryAt? place ≠ some .directory := by
    rw [Ne, ← isDirectoryAt_eq_true, ← alike.isDirectoryAt_eq, isDirectoryAt_eq_true]
    exact free
  have done : ∀ (u : FileTree) (d : Content) (n : Int), u.entryAt? place ≠ some .directory →
      u.followParent l = .ok place → u.replaceFile l d n = .ok (u.set place (.file d n)) := by
    intro u d n free leads
    rw [FileTree.replaceFile, leads]
    simp only [bind, Except.bind]
    rfl
  have leads' : t'.followParent l = .ok place := by
    rw [followParent, ← alike.locate_eq]
    exact leads
  rw [done t c m free leads] at h
  obtain rfl := Except.ok.inj h
  refine ⟨_, done t' c' m' free' leads', alike.set_file ?_ c c' m m'⟩
  rintro rfl
  exact free rfl

end Alike

end FileTree

namespace MemoryStore

/-- A save fails just as the enumeration of its files does. -/
theorem save_answer (w : World σ) (key : String) (paths : List String) (project : Location) :
    ((save key paths project).run.run w).1 = (w.files.selection project paths).map fun _ => () := by
  rw [save]
  match hsel : w.files.selection project paths with
  | .error f =>
      have select := Action.run_ask_of (f := (·.selection project paths)) hsel
      rw [run_bind_error select]
      rfl
  | .ok selected =>
      have select := Action.run_ask_of (f := (·.selection project paths)) hsel
      obtain ⟨real, -, -, mem⟩ := FileTree.selection_ok hsel
      obtain ⟨blob, read⟩ := FileTree.readSelected_of_isSelected fun s hs =>
        ((mem s).mp hs).elim fun _ h => h.2.2
      have reads := Action.run_ask_of (w := w) (f := (·.readSelected selected)) read
      rw [run_bind_ok select, run_bind_ok reads]
      rfl

end MemoryStore

namespace DirectoryStore

open FileTree

variable {w w' : World σ}

/-- Whether a file can be put in a store does not depend on what files hold. -/
theorem run_putFile_congr (alike : w.files.Alike w'.files) {place : Location} {c : Content} {m : Int}
    {w₁ : World σ} (h : (putFile place c m).run.run w = (.ok (), w₁)) (c' : Content) (m' : Int) :
    ∃ w₁', (putFile place c' m').run.run w' = (.ok (), w₁') ∧ w₁.files.Alike w₁'.files := by
  obtain ⟨draft, w₂, asked, put⟩ := run_ok_of_bind_ok h
  rw [Action.run_ask] at asked
  cases (Prod.mk.inj asked).2
  have asked' : (Action.ask fun t => orFault (draftPlace place)
      (t.followParent (draftPlace place))).run.run w' = (.ok draft, w') := by
    rw [Action.run_ask, followParent, ← alike.locate_eq]
    exact Prod.ext (Prod.mk.inj asked).1 rfl
  cases replaced : w.files.replaceFile place c m with
  | error r =>
      simp only [Action.change, Action.run_onFiles, replaced] at put
      cases put
  | ok t₁ =>
      rw [Action.run_change_ok replaced] at put
      cases put
      obtain ⟨t₁', replaced', alike'⟩ := alike.replaceFile replaced c' m'
      refine ⟨{ w' with files := t₁' }, ?_, alike'⟩
      rw [putFile, run_bind_ok asked']
      exact Action.run_change_ok replaced'

/-- Where a save of no paths goes through, a save of any paths fails just as the enumeration of its
files does, once the directory of the key is there. -/
theorem run_save_of_usable {root project : Location} {key : String} {w₀ : World σ}
    (usable : (save root key [] project).run.run w = (.ok (), w₀)) :
    ∃ tree w₁, w.files.resolve project = .ok tree ∧
      (openDirectory root (StoredName.ofKey key).directory).run.run w =
        (.ok (keyDirectory root key), w₁) ∧
      ∀ paths, ((save root key paths project).run.run w).1 =
        (w₁.files.selection tree paths).map fun _ => () := by
  obtain ⟨tree, w', resolved, usable⟩ := run_ok_of_bind_ok usable
  rw [Action.run_ask] at resolved
  obtain ⟨real, rfl⟩ := Prod.mk.inj resolved
  obtain ⟨place, w₁, opened, usable⟩ := run_ok_of_bind_ok usable
  obtain ⟨draft, w₂, asked, usable⟩ := run_ok_of_bind_ok usable
  obtain rfl : w₁ = w₂ := (Prod.mk.inj asked).2
  obtain ⟨none, w₂, selects, usable⟩ := run_ok_of_bind_ok usable
  obtain rfl : w₁ = w₂ := (Prod.mk.inj selects).2
  obtain ⟨packed, w₂, packs, usable⟩ := run_ok_of_bind_ok usable
  obtain rfl : w₁ = w₂ := (Prod.mk.inj packs).2
  obtain ⟨_, w₂, ticked, usable⟩ := run_ok_of_bind_ok usable
  obtain ⟨_, w₃, got, usable⟩ := run_ok_of_bind_ok usable
  cases ticked
  cases got
  obtain ⟨_, w₄, first, second⟩ := run_ok_of_bind_ok usable
  have directory : place = keyDirectory root key := by
    obtain ⟨_, w', -, same⟩ := run_ok_of_bind_ok opened
    exact (Except.ok.inj (Prod.mk.inj same).1).symm
  refine ⟨tree, w₁, real, directory ▸ opened, fun paths => ?_⟩
  rw [save, run_bind_ok (Action.run_ask_of (f := (·.resolve project)) real), run_bind_ok opened]
  dsimp only
  rw [run_bind_ok asked]
  cases hsel : w₁.files.selection tree paths with
  | error f =>
      have select := Action.run_ask_of (f := (·.selection tree paths)) hsel
      rw [run_bind_error select]
      rfl
  | ok selected =>
      have select := Action.run_ask_of (f := (·.selection tree paths)) hsel
      obtain ⟨_, -, -, mem⟩ := selection_ok hsel
      obtain ⟨members, read⟩ := membersOf_of_isSelected fun s hs =>
        ((mem s).mp hs).elim fun _ h => h.2.2
      have reads := Action.run_ask_of (w := w₁) (f := (·.membersOf selected)) read
      rw [run_bind_ok select, run_bind_ok reads, run_bind_ok (run_modify _ _),
        run_bind_ok (run_get _)]
      dsimp only
      obtain ⟨w₄', first', alike⟩ := run_putFile_congr (Alike.refl _) first (.archive members)
        (w₁.files.clock + 1)
      obtain ⟨w₅', second', -⟩ := run_putFile_congr alike second
        (.ofText (Manifest.text ⟨key, paths, selected.map (·.name), w₁.files.clock + 1⟩))
        (w₁.files.clock + 1)
      rw [run_bind_ok first', second']
      rfl

end DirectoryStore

/-- The enumeration of the files of a cache, and so a save of it, fails just where an obstacle is met;
otherwise it has all the files at or below what the paths lead to in the project, each with its real
place in the project as its name. Whole paths are taken to stay below their limit. -/
theorem enumeration_fails_iff (w : World σ) (project : Location) (paths : List String) (key : String) :
    (∀ f, w.files.selection project paths = .error f → w.files.Blocked project paths f) ∧
    ((∃ f, w.files.selection project paths = .error f) ↔ ∃ f, w.files.Blocked project paths f) ∧
    (∀ selected, w.files.selection project paths = .ok selected →
      ∃ real, w.files.resolve project = .ok real ∧
        ∀ s, s ∈ selected ↔ ∃ path ∈ paths, w.files.Visits real path s.place ∧
          w.files.isFile s.place = .ok true ∧ ∃ parts,
            w.files.resolve s.place = .ok (real ++ parts) ∧ s.name = keptName parts) ∧
    ((MemoryStore.save key paths project).run.run w).1 =
      ((w.files.selection project paths).map fun _ => ()) ∧
    ∀ root w₀, (DirectoryStore.save root key [] project).run.run w = (.ok (), w₀) →
      ∃ tree w₁, w.files.resolve project = .ok tree ∧
        (DirectoryStore.openDirectory root (StoredName.ofKey key).directory).run.run w =
          (.ok (DirectoryStore.keyDirectory root key), w₁) ∧
        ((DirectoryStore.save root key paths project).run.run w).1 =
          (w₁.files.selection tree paths).map fun _ => () := by
  refine ⟨fun f => FileTree.blocked_of_selection, FileTree.selection_fails_iff, fun selected h => ?_,
    MemoryStore.save_answer w key paths project, fun root w₀ usable => ?_⟩
  · obtain ⟨real, resolved, -, mem⟩ := FileTree.selection_ok h
    refine ⟨real, resolved, fun s => ?_⟩
    rw [mem]
    refine exists_congr fun path => and_congr_right fun _ => and_congr_right fun _ => ?_
    rw [FileTree.isSelected_iff]
    refine and_congr_right fun isFile => exists_congr fun parts => and_congr_left fun _ => ?_
    obtain ⟨place, _, follows, resolves, -, -⟩ := FileTree.isFile_eq_true isFile
    rw [follows, resolves]
    simp
  · obtain ⟨tree, w₁, resolved, opened, saves⟩ := DirectoryStore.run_save_of_usable usable
    exact ⟨tree, w₁, resolved, opened, saves paths⟩

section Sample

/-- A project with a link in a directory that leads to a file outside. -/
def escapingTree : FileTree :=
  ((((({} : FileTree).set ["out"] (.file (.ofText "x") 0)).set ["project"] .directory).set
    ["project", "d"] .directory).set ["project", "d", "l"] (.link "../../out"))

theorem wellFormed_escapingTree : escapingTree.WellFormed := FileTree.wellFormed_of_entries (by decide)

theorem follow_escapingTree : escapingTree.follow ["project", "d", "l"] = .ok ["out"] := by
  have target : "../../out".startsWith "/" = false := by
    rw [String.startsWith_string_eq_false_iff]
    decide
  have parts : pathParts "../../out" = ["..", "..", "out"] := rfl
  simp [FileTree.follow, FileTree.locate, FileTree.isDirectoryAt, FileTree.entryAt?, FileTree.linkStart,
    escapingTree, FileTree.set, Table.put, Table.get?, FileTree.linkLimit, target, parts,
    Location.parent]
  decide

theorem obstacle_escapingTree : escapingTree.Obstacle ["project"] "d"
    (.outside (Location.text ["out"]) (Location.text ["project"])) := by
  have directory : escapingTree.entryAt? ["project", "d"] = some .directory := rfl
  have ask := fun p => wellFormed_escapingTree.ask_eq directory (by simp) p
  have itself : escapingTree.follow ["project", "d"] = .ok ["project", "d"] :=
    wellFormed_escapingTree.follow_eq (by decide) rfl fun _ h => by cases h
  have isFile : escapingTree.isFile ["project", "d", "l"] = .ok true := by
    rw [FileTree.isFile, FileTree.ask, FileTree.noNul_of_names (by decide), FileTree.stat,
      follow_escapingTree]
    rfl
  have start : escapingTree.resolve (Location.ofPath ["project"] (Path.ofText "d")) =
      .ok ["project", "d"] := wellFormed_escapingTree.resolve_directory directory
  have below : ["project", "d", "l"] ∈ escapingTree.placesBelow ["project", "d"] :=
    (FileTree.mem_placesBelow_itself itself _).mpr ⟨by decide, by decide, _, rfl⟩
  exact .outside (.below start (by decide) (ask _) (ask _) below) isFile follow_escapingTree (by decide)

/-- A link in a directory of a project may keep the whole directory from being saved. -/
theorem enumeration_fails_at_link_out :
    (¬ ∀ (t : FileTree) (project : Location) (paths : List String), t.WellFormed →
      t.entryAt? project = some .directory → ∃ selected, t.selection project paths = .ok selected) ∧
    ¬ ∀ (w : World Unit) (project : Location) (paths : List String) (key : String),
      w.files.WellFormed → w.files.entryAt? project = some .directory →
      ((MemoryStore.save key paths project).run.run w).1 = .ok () := by
  obtain ⟨f, stopped⟩ := FileTree.selection_fails_iff.mpr ⟨_, .inr ⟨_,
    wellFormed_escapingTree.resolve_directory (l := ["project"]) rfl, "d", List.mem_singleton_self _,
    obstacle_escapingTree⟩⟩
  constructor
  · intro total
    obtain ⟨selected, h⟩ := total escapingTree ["project"] ["d"] wellFormed_escapingTree rfl
    rw [stopped] at h
    cases h
  · intro total
    have saves := total { files := escapingTree, own := () } ["project"] ["d"] "k"
      wellFormed_escapingTree rfl
    rw [MemoryStore.save_answer, stopped] at saves
    cases saves

end Sample

end Conveyor
