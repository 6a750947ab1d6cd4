import Conveyor.Proofs.Cache.Selection
import Conveyor.Proofs.Files.Follow

/-!
What an archive of a project with links is made of. A path that leads to a file is kept under the name
of that file; but where it ends in a link, the link is packed under that name, and not the file.
-/

namespace Conveyor.FileTree

/-- What stands at the end of a path itself is a link. -/
def EndsInLink (t : FileTree) (path : Location) : Prop :=
  ∃ place target, t.followParent path = .ok place ∧ t.entryAt? place = some (.link target)

/-- How a selected path is packed: under the name of the file that it leads to, as that file or, where
the path ends in a link, as the link. -/
inductive Packs (t : FileTree) (project : Location) (s : Selected) : Member → Prop
  | file {parts : List String} {c : Content} (itself : ¬ t.EndsInLink s.place)
      (leads : t.follow s.place = .ok (project ++ parts)) (file : t.HasFile (project ++ parts) c) :
      Packs t project s (.mk ("/".intercalate parts) (.file c))
  | link {place : Location} {target : String} {parts : List String} {c : Content}
      (itself : t.followParent s.place = .ok place) (link : t.entryAt? place = some (.link target))
      (leads : t.follow s.place = .ok (project ++ parts)) (file : t.HasFile (project ++ parts) c) :
      Packs t project s (.mk ("/".intercalate parts) (.link target))

theorem Packs.link_iff {t : FileTree} {project : Location} {s : Selected} {m : Member}
    (h : t.Packs project s m) : (∃ target, m.body = .link target) ↔ t.EndsInLink s.place := by
  cases h with
  | file itself leads file => simp [Member.body, itself]
  | link itself link leads file => exact ⟨fun _ => ⟨_, _, itself, link⟩, fun _ => ⟨_, rfl⟩⟩

/-- A member has its name from the selected path that it was made of. -/
theorem names_of_membersOf {t : FileTree} {selected : List Selected} {members : List Member}
    (h : t.membersOf selected = .ok members) :
    List.Forall₂ (fun (s : Selected) (m : Member) => m.name = Tar.memberName s.name) selected members := by
  induction selected generalizing members with
  | nil =>
      cases h
      exact .nil
  | cons s rest ih =>
      obtain ⟨place, -, h⟩ := ok_of_bind_ok h
      dsimp only at h
      split at h
      all_goals
        obtain ⟨body, -, h⟩ := ok_of_bind_ok h
        obtain ⟨others, packed, h⟩ := ok_of_bind_ok h
        cases h
        exact .cons rfl (ih packed)

/-- A path that leads to a file has a real place, at which the file stands. -/
theorem isFile_eq_true {t : FileTree} {l : Location} (h : t.isFile l = .ok true) : ∃ real c,
    t.follow l = .ok real ∧ t.resolve l = .ok real ∧ t.HasFile real c ∧ t.readFile l = .ok c := by
  obtain ⟨noNul, e, hstat, isFile⟩ := ask_eq_true h
  obtain ⟨c, m, rfl⟩ : ∃ c m, e = .file c m := by
    cases e with
    | file c m => exact ⟨c, m, rfl⟩
    | directory | link _ => cases isFile
  obtain ⟨real, follows, entry⟩ := ok_of_bind_ok hstat
  refine ⟨real, c, follows, resolve_of_leads follows noNul, ⟨m, ?_⟩, ?_⟩
  · split at entry
    · rename_i e there
      rw [there, Except.ok.inj entry]
    · cases entry
  · rw [readFile, hstat]
    rfl

/-- A path that leads to a file is selected under the name of its real place. -/
structure IsSelected (t : FileTree) (project : Location) (s : Selected) : Prop where
  isFile : t.isFile s.place = .ok true
  name : t.nameInside project s.place = .ok s.name

theorem of_orFault_ok {α : Type} {l : Location} {answer : Except Refusal α} {a : α}
    (h : orFault l answer = .ok a) : answer = .ok a := by
  cases answer with
  | ok b => exact congrArg Except.ok (Except.ok.inj h)
  | error r => cases h

section Selection

variable {t : FileTree} {project : Location} {selected : List Selected}

theorem selectFiles_isSelected {places : List Location}
    (h : t.selectFiles project places = .ok selected) : ∀ s ∈ selected, t.IsSelected project s := by
  induction places generalizing selected with
  | nil =>
      cases h
      simp
  | cons place rest ih =>
      obtain ⟨answer, isFile, h⟩ := ok_of_bind_ok h
      cases answer with
      | true =>
          obtain ⟨name, hname, h⟩ := ok_of_bind_ok h
          obtain ⟨others, hothers, h⟩ := ok_of_bind_ok h
          cases h
          exact List.forall_mem_cons.mpr ⟨⟨isFile, hname⟩, ih hothers⟩
      | false => exact ih h

theorem selectPath_isSelected {path : String} (h : t.selectPath project path = .ok selected) :
    ∀ s ∈ selected, t.IsSelected project s := by
  obtain ⟨place, -, h⟩ := ok_of_bind_ok h
  obtain ⟨there, -, h⟩ := ok_of_bind_ok h
  split at h
  · cases h
    simp
  · split at h
    · cases h
      simp
    · obtain ⟨answer, isFile, h⟩ := ok_of_bind_ok h
      cases answer with
      | true =>
          obtain ⟨name, hname, h⟩ := ok_of_bind_ok h
          cases h
          exact List.forall_mem_singleton.mpr ⟨isFile, hname⟩
      | false =>
          obtain ⟨places, -, h⟩ := ok_of_bind_ok h
          exact selectFiles_isSelected h

theorem selectPaths_isSelected {paths : List String} (h : t.selectPaths project paths = .ok selected) :
    ∀ s ∈ selected, t.IsSelected project s := by
  induction paths generalizing selected with
  | nil =>
      cases h
      simp
  | cons path rest ih =>
      obtain ⟨first, hfirst, h⟩ := ok_of_bind_ok h
      obtain ⟨others, hothers, h⟩ := ok_of_bind_ok h
      cases h
      exact List.forall_mem_append.mpr ⟨selectPath_isSelected hfirst, ih hothers⟩

theorem selection_isSelected {real : Location} (resolved : t.resolve project = .ok real)
    {paths : List String} (h : t.selection project paths = .ok selected) :
    ∀ s ∈ selected, t.IsSelected real s := by
  rw [selection, resolved] at h
  exact selectPaths_isSelected h

variable (directory : t.entryAt? project = some .directory)
  (noBackslash : ∀ parts e, t.entryAt? (project ++ parts) = some e → ∀ c ∈ parts, '\\' ∉ c.toList)
include directory noBackslash

/-- A selected path leads to a file of the project, whose name it is kept under. -/
theorem IsSelected.leads {s : Selected} (h : t.IsSelected project s) : ∃ parts c,
    t.follow s.place = .ok (project ++ parts) ∧ t.HasFile (project ++ parts) c ∧
      t.readFile s.place = .ok c ∧ s.name = "/".intercalate parts := by
  obtain ⟨real, c, follows, resolves, ⟨m, there⟩, read⟩ := isFile_eq_true h.isFile
  obtain ⟨real', resolves', name⟩ := ok_of_bind_ok h.name
  obtain rfl := Except.ok.inj (resolves.symm.trans resolves')
  split at name
  · rename_i parts inside
    obtain rfl := (below?_eq_some project real parts).mp inside
    have hne : parts ≠ [] := by
      rintro rfl
      rw [List.append_nil, directory] at there
      cases there
    refine ⟨parts, c, follows, ⟨m, there⟩, read, ?_⟩
    rw [← keptName_eq hne (noBackslash parts _ there)]
    exact (Except.ok.inj name).symm
  · cases name

/-- Each selected path is packed, in their order. -/
theorem packs_membersOf (wf : t.WellFormed) (spec : ∀ s ∈ selected, t.IsSelected project s)
    {members : List Member} (h : t.membersOf selected = .ok members) :
    List.Forall₂ (t.Packs project) selected members := by
  induction selected generalizing members with
  | nil =>
      cases h
      exact .nil
  | cons s rest ih =>
      obtain ⟨first, others⟩ := List.forall_mem_cons.mp spec
      obtain ⟨parts, c, leads, ⟨modified, there⟩, read, name⟩ := first.leads directory noBackslash
      have named : Tar.memberName ("/".intercalate parts) = "/".intercalate parts :=
        Tar.memberName_intercalate fun c hc =>
          (wf.named _ _ there c (List.mem_append_right project hc)).component
      obtain ⟨place, hplace, h⟩ := ok_of_bind_ok h
      have itself := of_orFault_ok hplace
      dsimp only at h
      split at h
      · rename_i target link
        obtain ⟨body, hbody, h⟩ := ok_of_bind_ok h
        obtain ⟨more, hmore, h⟩ := ok_of_bind_ok h
        cases hbody
        cases h
        rw [name, named]
        exact .cons (.link itself link leads ⟨modified, there⟩) (ih others hmore)
      · rename_i notLink
        rw [read] at h
        obtain ⟨body, hbody, h⟩ := ok_of_bind_ok h
        obtain ⟨more, hmore, h⟩ := ok_of_bind_ok h
        cases hbody
        cases h
        rw [name, named]
        refine .cons (.file ?_ leads ⟨modified, there⟩) (ih others hmore)
        rintro ⟨place', target, itself', link⟩
        rw [itself] at itself'
        cases itself'
        exact notLink target link

end Selection

end Conveyor.FileTree
