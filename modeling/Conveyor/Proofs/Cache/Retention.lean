import Conveyor.Proofs.Cache.Scope
import Conveyor.Proofs.Files.Removal
import Mathlib.Data.List.Perm.Subperm

/-!
How many archives a directory of a store holds after it has been pruned. Those that are told to go are
gone, nothing else appears, and so no more are left than were to be kept.
-/

namespace Conveyor

theorem subperm_filterMap {α β : Type} (f : α → Option β) {l l' : List α} (h : l.Subperm l') :
    (l.filterMap f).Subperm (l'.filterMap f) := by
  obtain ⟨m, perm, sub⟩ := h
  exact ⟨m.filterMap f, perm.filterMap f, sub.filterMap f⟩

namespace FileTree

theorem names_subperm {t t' : FileTree} (sub : t'.entries.Sublist t.entries) (l : Location) :
    (t'.names l).Subperm (t.names l) := by
  refine subperm_filterMap _ ?_
  refine (List.mergeSort_perm _ _).subperm.trans (.trans ?_ (List.mergeSort_perm _ _).symm.subperm)
  exact (sub.filterMap _).subperm

theorem mem_names (t : FileTree) (l : Location) (name : String) :
    name ∈ t.names l ↔ ∃ e, t.entryAt? (l ++ [name]) = some e := by
  have key := Table.mem_keys_iff t.entries (l ++ [name])
  have entry : t.entryAt? (l ++ [name]) = t.entries.get? (l ++ [name]) := if_neg (by simp)
  rw [entry, ← key, names, List.mem_filterMap]
  constructor
  · rintro ⟨⟨parts, e⟩, hbelow, hname⟩
    obtain ⟨-, hentry⟩ := (t.mem_below l parts e).mp hbelow
    split at hname
    · rename_i same
      cases hname
      cases same
      exact List.mem_map_of_mem hentry
    · cases hname
  · intro h
    obtain ⟨⟨place, e⟩, hentry, rfl⟩ := List.mem_map.mp h
    exact ⟨([name], e), (t.mem_below l [name] e).mpr ⟨by simp, hentry⟩, rfl⟩

end FileTree

namespace DirectoryStore

open FileTree

variable {σ : Type} {t t' : FileTree} {directory : Location}

theorem artifactName?_eq_some (file name : String) :
    artifactName? file = some name ↔ file = name ++ artifactEnding := by
  unfold artifactName?
  dsimp only
  constructor
  · intro h
    split at h
    · rename_i ends
      have whole := List.prefix_iff_eq_append.mp (List.isPrefixOf_iff_prefix.mp ends)
      apply String.toList_injective
      rw [← List.reverse_reverse file.toList, ← whole, ← Option.some.inj h]
      simp
    · cases h
  · rintro rfl
    simp

theorem artifactNames_eq (wf : t.WellFormed) (there : t.entryAt? directory = some .directory) :
    artifactNames t directory = (t.names directory).filterMap artifactName? := by
  have leads : t.follow directory = .ok directory :=
    wf.follow_eq (wf.named _ _ there) (wf.above _ _ there) (by simp [there])
  rw [artifactNames, leads]
  exact if_pos ((t.isDirectoryAt_eq_true directory).mpr there)

theorem mem_artifactNames (wf : t.WellFormed) (there : t.entryAt? directory = some .directory)
    (name : String) : name ∈ artifactNames t directory ↔
      ∃ e, t.entryAt? (directory ++ [name ++ artifactEnding]) = some e := by
  rw [artifactNames_eq wf there, ← mem_names, List.mem_filterMap]
  simp [artifactName?_eq_some]

/-- Whether there is something in a directory to be found as the archive with a name. -/
def isStored (t : FileTree) (directory : Location) (name : String) : Bool :=
  match modifiedAt t (directory ++ [name ++ artifactEnding]) with
  | .ok (some _) => true
  | _ => false

theorem isStored_iff (t : FileTree) (directory : Location) (name : String) :
    isStored t directory name = true ↔
      ∃ m, modifiedAt t (directory ++ [name ++ artifactEnding]) = .ok (some m) := by
  unfold isStored
  split <;> simp_all

theorem storedAmong_ok {names : List String} {found : List Stored}
    (h : storedAmong t directory names = .ok found) :
    found.map (·.name) = names.filter (isStored t directory) ∧
      ∀ name ∈ names, ∃ m, modifiedAt t (directory ++ [name ++ artifactEnding]) = .ok m := by
  induction names generalizing found with
  | nil =>
      cases h
      simp
  | cons name rest ih =>
      obtain ⟨m, looked, h⟩ := ok_of_bind_ok h
      cases m with
      | none =>
          obtain ⟨named, answered⟩ := ih h
          rw [List.filter_cons_of_neg (by simp [isStored, looked])]
          exact ⟨named, List.forall_mem_cons.mpr ⟨⟨none, looked⟩, answered⟩⟩
      | some m =>
          obtain ⟨others, hothers, h⟩ := ok_of_bind_ok h
          cases h
          obtain ⟨named, answered⟩ := ih hothers
          rw [List.filter_cons_of_pos (by simp [isStored, looked]), List.map_cons, named]
          exact ⟨rfl, List.forall_mem_cons.mpr ⟨⟨some m, looked⟩, answered⟩⟩

theorem storedAmong_exists {names : List String}
    (h : ∀ name ∈ names, ∃ m, modifiedAt t (directory ++ [name ++ artifactEnding]) = .ok m) :
    ∃ found, storedAmong t directory names = .ok found := by
  induction names with
  | nil => exact ⟨[], rfl⟩
  | cons name rest ih =>
      obtain ⟨⟨m, looked⟩, others⟩ := List.forall_mem_cons.mp h
      obtain ⟨found, hfound⟩ := ih others
      rw [storedAmong, looked]
      cases m with
      | none => exact ⟨found, hfound⟩
      | some m => exact ⟨⟨name, m⟩ :: found, by simp only [bind, Except.bind, hfound]; rfl⟩

section Thinned

variable (thins : t.Thins t')
include thins

theorem modifiedAt_of_thins {l : Location} {m : Option Int} (h : modifiedAt t l = .ok m) :
    modifiedAt t' l = .ok m ∨ modifiedAt t' l = .ok none := by
  unfold modifiedAt at h ⊢
  rcases thins.stat l with same | gone
  · exact .inl (same ▸ h)
  · exact .inr (by rw [gone])

theorem artifactNames_of_thins : (artifactNames t' directory).Subperm (artifactNames t directory) := by
  unfold artifactNames
  cases leads : t'.follow directory with
  | error r => exact List.nil_subperm
  | ok place =>
      dsimp only
      split
      · rename_i inside
        obtain ⟨leads, inside⟩ := thins.follow_directory leads inside
        rw [leads]
        dsimp only
        rw [if_pos inside]
        exact subperm_filterMap _ (names_subperm thins.entries place)
      · exact List.nil_subperm

/-- Where some archives are gone, those that are left were there before. -/
theorem storedIn_of_thins {found : List Stored} (h : storedIn t directory = .ok found) :
    ∃ left, storedIn t' directory = .ok left ∧
      (left.map (·.name)).Subperm (found.map (·.name)) ∧
        ∀ s ∈ left, s.name ∈ artifactNames t' directory := by
  obtain ⟨named, answered⟩ := storedAmong_ok h
  have sub : (artifactNames t' directory).Subperm (artifactNames t directory) :=
    artifactNames_of_thins thins
  have after : ∀ name ∈ artifactNames t' directory, ∃ m,
      modifiedAt t' (directory ++ [name ++ artifactEnding]) = .ok m ∧
        (m ≠ none → modifiedAt t (directory ++ [name ++ artifactEnding]) = .ok m) := by
    intro name hname
    obtain ⟨m, hm⟩ := answered name (sub.subset hname)
    rcases modifiedAt_of_thins thins hm with same | gone
    · exact ⟨m, same, fun _ => hm⟩
    · exact ⟨none, gone, fun h => absurd rfl h⟩
  obtain ⟨left, hleft⟩ := storedAmong_exists fun name hname => (after name hname).imp fun _ h => h.1
  have named' := (storedAmong_ok hleft).1
  refine ⟨left, hleft, ?_, fun s hs => ?_⟩
  · have kept : ∀ name ∈ artifactNames t' directory, isStored t' directory name = true →
        isStored t directory name = true := by
      intro name hname stored
      obtain ⟨m, hm⟩ := (isStored_iff t' directory name).mp stored
      obtain ⟨m', hm', before⟩ := after name hname
      cases hm.symm.trans hm'
      exact (isStored_iff t directory name).mpr ⟨m, before (by simp)⟩
    rw [named', named]
    have twice : (artifactNames t' directory).filter (isStored t' directory) =
        ((artifactNames t' directory).filter (isStored t directory)).filter (isStored t' directory) := by
      rw [List.filter_filter]
      refine List.filter_congr fun name hname => ?_
      cases stored : isStored t' directory name with
      | true => rw [kept name hname stored]; rfl
      | false => rfl
    rw [twice]
    exact List.filter_sublist.subperm.trans (sub.filter (isStored t directory))
  · have hname : s.name ∈ left.map (·.name) := List.mem_map_of_mem hs
    rw [named'] at hname
    exact (List.mem_filter.mp hname).1

end Thinned

theorem isPlain_ending {ending : String} (name : String) (long : 2 < ending.toList.length) :
    IsPlain (name ++ ending) := by
  have longer : 2 < (name ++ ending).toList.length := by
    rw [String.toList_append, List.length_append]
    omega
  refine ⟨fun dot => ?_, fun dots => ?_⟩
  · rcases dot with h | h <;> rw [h] at longer <;> revert longer <;> decide
  · rw [dots] at longer
    revert longer
    decide

theorem removeIfThere_cases {place : Location} {w w' : World σ}
    (h : (removeIfThere place).run.run w = (.ok (), w')) :
    w.files.removeFile place = .ok w'.files ∨
      w.files.removeFile place = .error .notFound ∧ w'.files = w.files := by
  rw [removeIfThere, Action.change, Action.run_onFiles] at h
  obtain ⟨answer, rfl⟩ := Prod.mk.inj h
  cases removed : w.files.removeFile place with
  | ok t => exact .inl rfl
  | error refusal =>
      cases refusal with
      | notFound => exact .inr ⟨rfl, rfl⟩
      | _ =>
          rw [removed] at answer
          cases answer

/-- What is told to go in a directory is gone from it. -/
theorem removeIfThere_ok {c : String} (plain : IsPlain c) {w w' : World σ}
    (h : (removeIfThere (directory ++ [c])).run.run w = (.ok (), w')) :
    w.files.Thins w'.files ∧ ∀ place, w'.files.follow directory = .ok place →
      w'.files.isDirectoryAt place = true → w'.files.entryAt? (place ++ [c]) = none := by
  have named : ∀ {t : FileTree} {place found : Location}, t.follow directory = .ok place →
      t.isDirectoryAt place = true → t.followParent (directory ++ [c]) = .ok found →
      found = place ++ [c] := by
    intro t place found leads inside parent
    have step := t.locate_concat linkLimit [] directory leads inside plain
    rw [show t.locate false linkLimit [] (directory ++ [c]) = .ok found from parent] at step
    split at step <;> cases step
    rfl
  rcases removeIfThere_cases h with removed | ⟨removed, same⟩
  · obtain ⟨found, parent, -, thins, gone⟩ := removeFile_ok removed
    refine ⟨thins, fun place leads inside => ?_⟩
    obtain ⟨before, inside⟩ := thins.follow_directory leads inside
    rw [← named before inside parent, gone]
  · rw [same]
    refine ⟨.refl _, fun place leads inside => ?_⟩
    rcases removeFile_notFound removed with nowhere | ⟨found, parent, gone⟩
    · have step := w.files.locate_concat linkLimit [] directory leads inside plain
      rw [show w.files.locate false linkLimit [] (directory ++ [c]) = .error .notFound from
        nowhere] at step
      split at step <;> cases step
    · rw [← named leads inside parent, gone]

theorem removeStored_ok {dropped : List Stored} {w w' : World σ}
    (h : (removeStored directory dropped).run.run w = (.ok (), w')) :
    w.files.Thins w'.files ∧ ∀ s ∈ dropped, s.name ∉ artifactNames w'.files directory := by
  have gone : w.files.Thins w'.files ∧ ∀ place, w'.files.follow directory = .ok place →
      w'.files.isDirectoryAt place = true →
      ∀ s ∈ dropped, w'.files.entryAt? (place ++ [s.name ++ artifactEnding]) = none := by
    induction dropped generalizing w with
    | nil =>
        cases h
        exact ⟨.refl _, by simp⟩
    | cons s rest ih =>
        obtain ⟨⟨⟩, w₁, artifact, h⟩ := run_ok_of_bind_ok h
        obtain ⟨⟨⟩, w₂, manifest, h⟩ := run_ok_of_bind_ok h
        obtain ⟨first, gone⟩ := removeIfThere_ok (isPlain_ending s.name (by decide)) artifact
        obtain ⟨second, -⟩ := removeIfThere_ok (isPlain_ending s.name (by decide)) manifest
        obtain ⟨later, others⟩ := ih h
        have after : w₁.files.Thins w'.files := second.trans later
        refine ⟨first.trans after, fun place leads inside => ?_⟩
        obtain ⟨before, there⟩ := after.follow_directory leads inside
        exact List.forall_mem_cons.mpr ⟨after.missing (gone place before there),
          others place leads inside⟩
  refine ⟨gone.1, fun s hs listed => ?_⟩
  unfold artifactNames at listed
  split at listed
  · rename_i place leads
    split at listed
    · rename_i inside
      obtain ⟨file, hfile, hname⟩ := List.mem_filterMap.mp listed
      rw [(artifactName?_eq_some file s.name).mp hname] at hfile
      obtain ⟨e, there⟩ := (mem_names _ _ _).mp hfile
      cases there.symm.trans (gone.2 place leads inside s hs)
    · cases listed
  · cases listed

/-- A file with the ending of an archive is found. -/
theorem mem_of_storedIn (wf : t.WellFormed) {name : String} {c : Content}
    (file : t.HasFile (directory ++ [name ++ artifactEnding]) c) {found : List Stored}
    (h : storedIn t directory = .ok found) : name ∈ found.map (·.name) := by
  obtain ⟨m, there⟩ := file
  have inside : t.entryAt? directory = some .directory := by
    have above := wf.above _ _ there
    rwa [List.dropLast_concat] at above
  rw [(storedAmong_ok h).1, List.mem_filter, isStored_iff, mem_artifactNames wf inside]
  refine ⟨⟨_, there⟩, m, ?_⟩
  rw [modifiedAt, wf.stat_eq there (by simp)]

/-- A directory holds no more archives than a number tells. -/
def HoldsAtMost (t : FileTree) (directory : Location) (n : Int) : Prop :=
  ∃ found, storedIn t directory = .ok found ∧ found.length ≤ n

/-- What is kept and what is dropped of a list make up the list; as many are kept as told, or all. -/
theorem dropKept_split (keep : Int) (items : List Stored) : ∃ kept, items = kept ++ dropKept keep items ∧
    (0 ≤ keep → (kept.length : Int) = min keep items.length) := by
  refine ⟨items.take (if keep < 0 then (items.length + keep).toNat else keep.toNat),
    (List.take_append_drop _ items).symm, fun h => ?_⟩
  rw [if_neg (by omega), List.length_take]
  omega

/-- A directory that has been pruned holds no more archives than were to be kept. -/
theorem pruneDirectory_ok {keep : Int} (h : 0 ≤ keep) {w w' : World σ}
    (run : (pruneDirectory directory keep).run.run w = (.ok (), w')) :
    HoldsAtMost w'.files directory keep := by
  obtain ⟨⟨⟩, w₁, opened, run⟩ := run_ok_of_bind_ok run
  obtain ⟨found, w₂, asked, run⟩ := run_ok_of_bind_ok run
  rw [Action.run_ask] at asked
  obtain ⟨listed, rfl⟩ := Prod.mk.inj asked
  dsimp only at run
  obtain ⟨kept, split, count⟩ := dropKept_split keep (found.mergeSort fun a b => b.modified ≤ a.modified)
  have bound := count h
  generalize dropKept keep _ = dropped at split run
  obtain ⟨thins, gone⟩ := removeStored_ok run
  obtain ⟨left, hleft, sub, there⟩ := storedIn_of_thins thins listed
  refine ⟨left, hleft, ?_⟩
  -- what is left is not dropped, so it is among what was kept
  let undropped (name : String) : Bool := name ∉ dropped.map (·.name)
  have all : (left.map (·.name)).filter undropped = left.map (·.name) := by
    rw [List.filter_eq_self]
    intro name hname
    obtain ⟨s, hs, rfl⟩ := List.mem_map.mp hname
    simp only [undropped, decide_eq_true_eq]
    intro hdropped
    obtain ⟨d, hd, same⟩ := List.mem_map.mp hdropped
    exact gone d hd (same ▸ there s hs)
  have none : (dropped.map (·.name)).filter undropped = [] := by
    rw [List.filter_eq_nil_iff]
    intro name hname
    simpa [undropped] using hname
  have perm : (found.map (·.name)).Perm (kept.map (·.name) ++ dropped.map (·.name)) := by
    rw [← List.map_append, ← split]
    exact ((List.mergeSort_perm found _).map _).symm
  have fewer : left.length ≤ kept.length := calc
    left.length = ((left.map (·.name)).filter undropped).length := by rw [all, List.length_map]
    _ ≤ ((found.map (·.name)).filter undropped).length := (sub.filter undropped).length_le
    _ = ((kept.map (·.name) ++ dropped.map (·.name)).filter undropped).length :=
      (perm.filter undropped).length_eq
    _ = ((kept.map (·.name)).filter undropped).length := by rw [List.filter_append, none, List.append_nil]
    _ ≤ kept.length := (List.length_filter_le _ _).trans (List.length_map _).le
  omega

end DirectoryStore

end Conveyor
