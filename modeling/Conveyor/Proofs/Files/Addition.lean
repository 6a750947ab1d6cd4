import Conveyor.Proofs.Files.Change
import Conveyor.Proofs.Files.Follow
import Conveyor.Proofs.Table

/-!
A file that is new in a tree, where nothing stood. Taken away it leaves no trace. Paths lead where they led,
unless they led nowhere; and what is asked of a path has the same answer, unless it leads to the new file.
-/

namespace Conveyor

namespace FileTree

/-- What stands at a place now does not count when something else is put there. -/
theorem set_set (t : FileTree) (l : Location) (e e' : Entry) : (t.set l e).set l e' = t.set l e' := by
  simp only [set, Table.put_put]

/-- What has been put where nothing stood is taken away without a trace. -/
theorem Rooted.removeTree_set {t : FileTree} (rooted : t.Rooted) {l : Location}
    (missing : t.entryAt? l = none) (e : Entry) : (t.set l e).removeTree l = t := by
  have outside : ∀ entry ∈ t.entries, (!l.isPrefixOf entry.1) = true := by
    rintro ⟨place, there⟩ mem
    by_contra below
    have below : l <+: place := by simpa using below
    obtain ⟨found, entry⟩ := (Table.mem_keys_iff t.entries place).mp (List.mem_map_of_mem mem)
    have proper : place ≠ [] := by
      rintro rfl
      exact ne_nil_of_missing missing (List.prefix_nil.mp below)
    have stands : t.entryAt? place = some found := by rw [entryAt?, if_neg proper, entry]
    by_cases itself : l = place
    · cases missing.symm.trans (itself ▸ stands)
    · cases missing.symm.trans (rooted.directory_of_prefix stands below itself)
  have same := Table.filter_put t.entries (fun place => !l.isPrefixOf place) e
    (show (!l.isPrefixOf l) = false by simp)
  rw [List.filter_eq_self.mpr outside] at same
  simp only [FileTree.removeTree, FileTree.set, same]

/-- What stands below a directory is the same, unless the new entry stands there. -/
theorem below_set (t : FileTree) {l new : Location} (outside : ¬ l <+: new) (e : Entry) :
    (t.set new e).below l = t.below l := by
  unfold below
  rw [set, Table.filterMap_put]
  intro other
  have apart : Location.below? l new = none := by simpa [Location.below?] using outside
  simp only [apart]

section New

variable {t : FileTree} {new : Location} (missing : t.entryAt? new = none) (c : Content) (m : Int)
include missing

theorem entryAt?_new (l : Location) : (t.set new (.file c m)).entryAt? l =
    if l = new then some (.file c m) else t.entryAt? l :=
  entryAt?_set t (fun root => by simp [root] at missing) _ l

theorem isDirectoryAt_new (l : Location) : (t.set new (.file c m)).isDirectoryAt l = t.isDirectoryAt l := by
  rw [Bool.eq_iff_iff, isDirectoryAt_eq_true, isDirectoryAt_eq_true, entryAt?_new missing]
  split
  · rename_i here
    simp [here, missing]
  · rfl

/-- Looking a path up ends as before; or it ended at nothing, and now the new file is in the way. -/
theorem locate_new (last : Bool) (links : Nat) (place : Location) (parts : List String) :
    (t.set new (.file c m)).locate last links place parts = t.locate last links place parts ∨
      t.locate last links place parts = .error .notFound ∧
        (t.set new (.file c m)).locate last links place parts = .error .notDirectory := by
  have stays : ∀ l {e}, t.entryAt? l = some e → (t.set new (.file c m)).entryAt? l = some e := by
    intro l e there
    rw [entryAt?_new missing, if_neg, there]
    rintro rfl
    cases missing.symm.trans there
  fun_induction t.locate last links place parts with
  | case1 links place => exact .inl (by rw [locate])
  | case2 links place c' rest directory =>
      exact .inl (by rw [locate, isDirectoryAt_new missing, if_pos directory])
  | case3 links place c' rest directory dot ih =>
      rw [locate, isDirectoryAt_new missing, if_neg directory, if_pos dot]
      exact ih
  | case4 links place rest directory dot ih =>
      rw [locate, isDirectoryAt_new missing, if_neg directory, if_neg dot, if_pos rfl]
      exact ih
  | case5 links place c' rest directory dot dots long =>
      exact .inl (by
        rw [locate, isDirectoryAt_new missing, if_neg directory, if_neg dot, if_neg dots, if_pos long])
  | case6 links place c' rest directory dot dots short here nothing ended =>
      obtain rfl := List.isEmpty_iff.mp ended
      refine .inl ?_
      rw [locate, isDirectoryAt_new missing, if_neg directory, if_neg dot, if_neg dots, if_neg short]
      by_cases itself : place ++ [c'] = new
      · simp only [entryAt?_new missing, itself, if_true, locate, here]
      · simp only [entryAt?_new missing, if_neg itself, show t.entryAt? (place ++ [c']) = none from nothing,
          if_pos ended, here]
  | case7 links place c' rest directory dot dots short here nothing goesOn =>
      rw [locate, isDirectoryAt_new missing, if_neg directory, if_neg dot, if_neg dots, if_neg short]
      by_cases itself : place ++ [c'] = new
      · obtain ⟨next, more, rfl⟩ := List.exists_cons_of_ne_nil (mt List.isEmpty_iff.mpr goesOn)
        have closed : (!(t.set new (.file c m)).isDirectoryAt new) = true := by
          rw [isDirectoryAt_new missing, isDirectoryAt, missing]
          rfl
        refine .inr ⟨rfl, ?_⟩
        simp only [entryAt?_new missing, itself, if_true]
        rw [locate, if_pos closed]
      · refine .inl ?_
        simp only [entryAt?_new missing, if_neg itself, show t.entryAt? (place ++ [c']) = none from nothing,
          if_neg goesOn]
  | case8 links place c' rest directory dot dots short here target link itself =>
      refine .inl ?_
      rw [locate, isDirectoryAt_new missing, if_neg directory, if_neg dot, if_neg dots, if_neg short]
      simp only [stays (place ++ [c']) link, if_pos itself, here]
  | case9 place c' rest directory dot dots short here target link followed =>
      refine .inl ?_
      rw [locate, isDirectoryAt_new missing, if_neg directory, if_neg dot, if_neg dots, if_neg short]
      simp only [stays (place ++ [c']) link, if_neg followed]
  | case10 place c' rest directory dot dots short here target link followed links ih =>
      rw [locate, isDirectoryAt_new missing, if_neg directory, if_neg dot, if_neg dots, if_neg short]
      simp only [stays (place ++ [c']) link, if_neg followed]
      exact ih
  | case11 links place c' rest directory dot dots short here e notLink there ih =>
      rw [locate, isDirectoryAt_new missing, if_neg directory, if_neg dot, if_neg dots, if_neg short]
      cases e with
      | link target => exact absurd rfl (notLink target)
      | directory | file _ _ =>
          simp only [stays (place ++ [c']) there]
          exact ih

theorem follow_new (l : Location) : (t.set new (.file c m)).follow l = t.follow l ∨
    t.follow l = .error .notFound ∧ (t.set new (.file c m)).follow l = .error .notDirectory :=
  locate_new missing c m true linkLimit [] l

/-- Every path has the same real place. -/
theorem resolve_new (l : Location) : (t.set new (.file c m)).resolve l = t.resolve l := by
  have links : t.SameLinks (t.set new (.file c m)) := by
    intro place target
    rw [entryAt?_new missing]
    split
    · rename_i here
      simp [here, missing]
    · rfl
  unfold resolve
  rw [← resolveFrom_congr links]
  rcases follow_new missing c m (t.resolveFrom [] [] l).1 with same | ⟨nothing, inTheWay⟩
  · simp only [same]
  · simp only [nothing, inTheWay]

/-- What is asked of a path has the same answer, unless the path leads to the new file. -/
theorem ask_new {l : Location} (other : t.follow l ≠ .ok new) (p : Entry → Bool) :
    (t.set new (.file c m)).ask l p = t.ask l p := by
  unfold ask stat
  rcases follow_new missing c m l with same | ⟨nothing, inTheWay⟩
  · rw [same]
    cases leads : t.follow l with
    | error r => rfl
    | ok place =>
        have elsewhere : place ≠ new := fun itself => other (itself ▸ leads)
        simp only [bind, Except.bind, entryAt?_new missing, if_neg elsewhere]
  · simp only [nothing, inTheWay, bind, Except.bind]

/-- The same questions have no answer. -/
theorem ask_new_eq_error (l : Location) (p : Entry → Bool) (f : Fault) :
    (t.set new (.file c m)).ask l p = .error f ↔ t.ask l p = .error f := by
  by_cases leads : t.follow l = .ok new
  · have leads' : (t.set new (.file c m)).follow l = .ok new := by
      rcases follow_new missing c m l with same | ⟨nothing, -⟩
      · rw [same, leads]
      · cases leads.symm.trans nothing
    unfold ask stat
    simp only [leads, leads', bind, Except.bind, entryAt?_new missing, if_true, missing]
    split <;> simp [pure, Except.pure, throw, throwThe, MonadExceptOf.throw]
  · rw [ask_new missing c m leads]

end New

end FileTree

end Conveyor
