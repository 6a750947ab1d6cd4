import Conveyor.Proofs.Files.Follow
import Conveyor.Proofs.Table

/-!
What taking files away does to lookups. Where everything above a place is a directory, nothing on the
way is taken away; so a path leads where it led before, or it now ends at something missing.
-/

namespace Conveyor.FileTree

/-- A place and all that is above it are directories. -/
def Firm (t : FileTree) (l : Location) : Prop := ∀ m, m <+: l → t.entryAt? m = some .directory

/-- Some entries of a tree are taken away, but no directory that stands in directories. -/
structure Thins (t t' : FileTree) : Prop where
  entries : t'.entries.Sublist t.entries
  kept : ∀ l, t'.entryAt? l = t.entryAt? l ∨ t'.entryAt? l = none ∧ ¬ t.Firm l

theorem Thins.refl (t : FileTree) : t.Thins t := ⟨.refl _, fun _ => .inl rfl⟩

theorem Thins.firm {t t' : FileTree} (thins : t.Thins t') {l : Location} (firm : t.Firm l) :
    t'.Firm l := by
  intro m hm
  rcases thins.kept m with same | ⟨-, loose⟩
  · rw [same, firm m hm]
  · exact absurd (fun p hp => firm p (hp.trans hm)) loose

theorem Thins.trans {t t' t'' : FileTree} (first : t.Thins t') (second : t'.Thins t'') :
    t.Thins t'' := by
  refine ⟨second.entries.trans first.entries, fun l => ?_⟩
  rcases second.kept l with same | ⟨gone, loose⟩
  · rw [same]
    exact first.kept l
  · exact .inr ⟨gone, fun firm => loose (first.firm firm)⟩

theorem entryAt?_removeTree (t : FileTree) {l : Location} (hl : l ≠ []) (m : Location) :
    (t.removeTree l).entryAt? m = if l <+: m then none else t.entryAt? m := by
  by_cases hm : m = []
  · subst hm
    simp [entryAt?, hl]
  · simp only [entryAt?, hm, if_false, removeTree]
    rw [Table.get?_filter t.entries (fun place => !l.isPrefixOf place) m]
    by_cases below : l <+: m
    · simp [below, List.isPrefixOf_iff_prefix.mpr below]
    · simp [below]

/-- Taking away what is no directory, with all that stands below it. -/
theorem thins_removeTree {t : FileTree} {l : Location} {e : Entry} (there : t.entryAt? l = some e)
    (file : e ≠ .directory) : t.Thins (t.removeTree l) := by
  have hl : l ≠ [] := by
    rintro rfl
    exact file (Option.some.inj there).symm
  refine ⟨List.filter_sublist, fun m => ?_⟩
  rw [entryAt?_removeTree t hl]
  split
  · rename_i below
    refine .inr ⟨rfl, fun firm => file ?_⟩
    exact Option.some.inj (there.symm.trans (firm l below))
  · exact .inl rfl

theorem removeFile_ok {t t' : FileTree} {l : Location} (h : t.removeFile l = .ok t') :
    ∃ place, t.followParent l = .ok place ∧ t' = t.removeTree place ∧ t.Thins t' ∧
      t'.entryAt? place = none := by
  obtain ⟨place, leads, h⟩ := ok_of_bind_ok h
  match there : t.entryAt? place with
  | none =>
      simp only [there] at h
      cases h
  | some e =>
      simp only [there] at h
      cases e with
      | directory => cases h
      | file c m =>
          obtain rfl := (Except.ok.inj h).symm
          have thins := thins_removeTree there (by simp)
          refine ⟨place, leads, rfl, thins, ?_⟩
          rw [entryAt?_removeTree t (by rintro rfl; cases there), if_pos (List.prefix_refl place)]
      | link target =>
          obtain rfl := (Except.ok.inj h).symm
          have thins := thins_removeTree there (by simp)
          refine ⟨place, leads, rfl, thins, ?_⟩
          rw [entryAt?_removeTree t (by rintro rfl; cases there), if_pos (List.prefix_refl place)]

theorem removeFile_notFound {t : FileTree} {l : Location} (h : t.removeFile l = .error .notFound) :
    t.followParent l = .error .notFound ∨
      ∃ place, t.followParent l = .ok place ∧ t.entryAt? place = none := by
  rcases error_of_bind_error h with h | ⟨place, leads, h⟩
  · exact .inl h
  · match there : t.entryAt? place with
    | none => exact .inr ⟨place, leads, there⟩
    | some e =>
        simp only [there] at h
        cases e <;> cases h

/-- A component of a lookup that is neither empty nor dots and not too long. -/
theorem locate_step (t : FileTree) (last : Bool) (links : Nat) {place : Location} {c : String}
    (rest : List String) (directory : t.isDirectoryAt place = true) (plain : IsPlain c)
    (short : ¬ nameLimit < c.utf8ByteSize) :
    t.locate last links place (c :: rest) = match t.entryAt? (place ++ [c]) with
      | none => if rest.isEmpty then .ok (place ++ [c]) else .error .notFound
      | some (.link target) =>
        if rest.isEmpty && !last then .ok (place ++ [c])
        else match links with
          | 0 => .error .linkLoop
          | links + 1 => t.locate last links (linkStart place target) (pathParts target ++ rest)
      | some _ => t.locate last links (place ++ [c]) rest := by
  cases there : t.entryAt? (place ++ [c]) with
  | none => simp [locate, directory, plain.1, plain.2, short, there]
  | some e =>
      cases e with
      | directory | file => simp [locate, directory, plain.1, plain.2, short, there]
      | link target => cases links <;> simp [locate, directory, plain.1, plain.2, short, there]

/-- All that is above a place is a directory. -/
def Reached (t : FileTree) (l : Location) : Prop :=
  ∀ m, m <+: l → m ≠ l → t.entryAt? m = some .directory

theorem Reached.firm {t : FileTree} {l : Location} (reached : t.Reached l)
    (directory : t.entryAt? l = some .directory) : t.Firm l := by
  intro m hm
  by_cases itself : m = l
  · rw [itself, directory]
  · exact reached m hm itself

theorem Firm.child {t : FileTree} {l : Location} (firm : t.Firm l) (c : String) :
    t.Reached (l ++ [c]) := by
  intro m hm other
  rcases List.prefix_concat_iff.mp hm with itself | hm
  · exact absurd itself other
  · exact firm m hm

theorem reached_nil (t : FileTree) : t.Reached [] :=
  fun _ hm other => absurd (List.prefix_nil.mp hm) other

theorem Reached.parent {t : FileTree} {l : Location} (reached : t.Reached l) :
    t.Reached l.parent := by
  intro m hm other
  refine reached m (hm.trans (List.dropLast_prefix l)) ?_
  rintro rfl
  exact other (hm.eq_of_length_le (by simp [Location.parent]))

theorem Reached.linkStart {t : FileTree} {l : Location} (reached : t.Reached l) (target : String) :
    t.Reached (FileTree.linkStart l target) := by
  unfold FileTree.linkStart
  split
  · exact t.reached_nil
  · exact reached

section Lookup

variable {t t' : FileTree} (thins : t.Thins t')
include thins

theorem Thins.same_or_gone {l : Location} (reached : t.Reached l) : t'.entryAt? l = t.entryAt? l ∨
    t'.entryAt? l = none ∧ t.entryAt? l ≠ some .directory := by
  rcases thins.kept l with same | ⟨gone, loose⟩
  · exact .inl same
  · exact .inr ⟨gone, fun directory => loose (reached.firm directory)⟩

theorem Thins.missing {l : Location} (missing : t.entryAt? l = none) : t'.entryAt? l = none := by
  rcases thins.kept l with same | ⟨gone, -⟩
  · exact same.trans missing
  · exact gone

theorem Thins.isDirectoryAt_eq {l : Location} (reached : t.Reached l) :
    t'.isDirectoryAt l = t.isDirectoryAt l := by
  rcases thins.same_or_gone reached with same | ⟨gone, file⟩
  · rw [isDirectoryAt, isDirectoryAt, same]
  · rw [Bool.eq_iff_iff, isDirectoryAt_eq_true, isDirectoryAt_eq_true, gone]
    simp [file]

/-- A lookup that comes to a plain component goes on as before; where what it names is gone, it ends
there. -/
theorem Thins.locate_step (last : Bool) (links : Nat) {place : Location} {c : String}
    (rest : List String) (reached : t.Reached place) (inside : t.isDirectoryAt place = true)
    (plain : IsPlain c) (short : ¬ nameLimit < c.utf8ByteSize) :
    (t'.locate last links place (c :: rest) = match t.entryAt? (place ++ [c]) with
      | none => if rest.isEmpty then .ok (place ++ [c]) else .error .notFound
      | some (.link target) =>
        if rest.isEmpty && !last then .ok (place ++ [c])
        else match links with
          | 0 => .error .linkLoop
          | links + 1 => t'.locate last links (linkStart place target) (pathParts target ++ rest)
      | some _ => t'.locate last links (place ++ [c]) rest) ∨
    t'.locate last links place (c :: rest) = .error .notFound ∨
      ∃ l, t'.locate last links place (c :: rest) = .ok l ∧ t'.entryAt? l = none := by
  have step := t'.locate_step last links rest ((thins.isDirectoryAt_eq reached).trans inside) plain
    short
  rcases thins.kept (place ++ [c]) with same | ⟨gone, -⟩
  · exact .inl (by rw [step, same])
  · rw [gone] at step
    cases hrest : rest.isEmpty with
    | true => exact .inr (.inr ⟨_, step.trans (if_pos hrest), gone⟩)
    | false => exact .inr (.inl (step.trans (if_neg (by simp [hrest]))))

/-- A lookup ends as before, or at something that is missing. -/
theorem Thins.locate (last : Bool) (links : Nat) (place : Location) (parts : List String)
    (reached : t.Reached place) :
    t'.locate last links place parts = t.locate last links place parts ∨
      t'.locate last links place parts = .error .notFound ∨
      ∃ l, t'.locate last links place parts = .ok l ∧ t'.entryAt? l = none := by
  have next : ∀ links place c rest, t.Reached place → ¬ (!t.isDirectoryAt place) = true →
      IsPlain c → ¬ nameLimit < c.utf8ByteSize → _ :=
    fun links place c rest reached inside plain short =>
      thins.locate_step last links (c := c) rest reached (by simpa using inside) plain short
  fun_induction t.locate last links place parts with
  | case1 links place => exact .inl (by rw [FileTree.locate])
  | case2 links place c rest outside =>
      exact .inl (by rw [FileTree.locate, thins.isDirectoryAt_eq reached, if_pos outside])
  | case3 links place c rest inside dot ih =>
      rw [FileTree.locate, thins.isDirectoryAt_eq reached, if_neg inside, if_pos dot]
      exact ih reached
  | case4 links place rest inside dot ih =>
      rw [FileTree.locate, thins.isDirectoryAt_eq reached, if_neg inside, if_neg dot, if_pos rfl]
      exact ih reached.parent
  | case5 links place c rest inside dot dots long =>
      exact .inl (by rw [FileTree.locate, thins.isDirectoryAt_eq reached, if_neg inside, if_neg dot,
        if_neg dots, if_pos long])
  | case6 links place c rest inside dot dots short here missing ended =>
      refine (next links place c rest reached inside ⟨dot, dots⟩ short).imp_left fun step => ?_
      rw [step, missing]
      exact if_pos ended
  | case7 links place c rest inside dot dots short here missing more =>
      refine (next links place c rest reached inside ⟨dot, dots⟩ short).imp_left fun step => ?_
      rw [step, missing]
      exact if_neg more
  | case8 links place c rest inside dot dots short here target link ended =>
      refine (next links place c rest reached inside ⟨dot, dots⟩ short).imp_left fun step => ?_
      rw [step, link]
      exact if_pos ended
  | case9 place c rest inside dot dots short here target link more =>
      refine (next 0 place c rest reached inside ⟨dot, dots⟩ short).imp_left fun step => ?_
      rw [step, link]
      exact if_neg more
  | case10 place c rest inside dot dots short here target link more links ih =>
      rcases next (links + 1) place c rest reached inside ⟨dot, dots⟩ short with step | gone
      · rw [link] at step
        rw [step.trans (if_neg more)]
        exact ih (reached.linkStart target)
      · exact .inr gone
  | case11 links place c rest inside dot dots short here e noLink there ih =>
      rcases next links place c rest reached inside ⟨dot, dots⟩ short with step | gone
      · have firm := reached.firm ((t.isDirectoryAt_eq_true place).mp (by simpa using inside))
        have onward : t'.locate last links place (c :: rest) = t'.locate last links here rest := by
          rw [step, there]
          cases e with
          | link target => exact (noLink target rfl).elim
          | directory | file => rfl
        rw [onward]
        exact ih (firm.child c)
      · exact .inr gone

/-- What a path leads to is what it led to before, or it is missing. -/
theorem Thins.stat (l : Location) : t'.stat l = t.stat l ∨ t'.stat l = .error .notFound := by
  rcases thins.locate true linkLimit [] l t.reached_nil with same | gone | ⟨place, leads, gone⟩
  · have leads : t'.follow l = t.follow l := same
    unfold FileTree.stat
    rw [leads]
    match t.follow l with
    | .error r => exact .inl rfl
    | .ok place =>
        rcases thins.kept place with same | ⟨gone, -⟩
        · exact .inl (by simp only [bind, Except.bind, same])
        · exact .inr (by simp only [bind, Except.bind, gone]; rfl)
  · have leads : t'.follow l = .error .notFound := gone
    exact .inr (by rw [FileTree.stat, leads]; rfl)
  · have leads : t'.follow l = .ok place := leads
    exact .inr (by simp only [FileTree.stat, leads, bind, Except.bind, gone]; rfl)

/-- A directory that a path leads to is the one that it led to before. -/
theorem Thins.follow_directory {l place : Location} (leads : t'.follow l = .ok place)
    (directory : t'.isDirectoryAt place = true) :
    t.follow l = .ok place ∧ t.isDirectoryAt place = true := by
  rw [isDirectoryAt_eq_true] at directory ⊢
  have there : t.entryAt? place = some .directory := by
    rcases thins.kept place with same | ⟨gone, -⟩
    · exact same ▸ directory
    · cases gone.symm.trans directory
  refine ⟨?_, there⟩
  rcases thins.locate true linkLimit [] l t.reached_nil with same | gone | ⟨other, leads', gone⟩
  · exact same.symm.trans leads
  · cases gone.symm.trans leads
  · cases leads'.symm.trans leads
    cases gone.symm.trans directory

end Lookup

/-- A name in a directory that a path leads to. -/
theorem locate_concat (t : FileTree) (links : Nat) (place : Location) (parts : List String)
    {directory : Location} (leads : t.locate true links place parts = .ok directory)
    (inside : t.isDirectoryAt directory = true) {c : String} (plain : IsPlain c) :
    t.locate false links place (parts ++ [c]) =
      if nameLimit < c.utf8ByteSize then .error .nameTooLong else .ok (directory ++ [c]) := by
  fun_induction t.locate true links place parts with
  | case1 links place =>
      cases leads
      split
      · rename_i long
        rw [List.nil_append, locate, if_neg (by simp [inside]), if_neg plain.1, if_neg plain.2, if_pos long]
      · rename_i short
        rw [List.nil_append, t.locate_step false links [] inside plain short]
        split
        · rfl
        · rfl
        · rw [locate]
  | case2 => cases leads
  | case3 links place d rest here dot ih =>
      rw [List.cons_append, locate, if_neg here, if_pos dot]
      exact ih leads
  | case4 links place rest here dot ih =>
      rw [List.cons_append, locate, if_neg here, if_neg dot, if_pos rfl]
      exact ih leads
  | case5 => cases leads
  | case6 links place d rest here dot dots short next missing ended =>
      rw [← Except.ok.inj leads, isDirectoryAt_eq_true, missing] at inside
      cases inside
  | case7 => cases leads
  | case8 links place d rest here dot dots short next target link ended =>
      simp at ended
  | case9 => cases leads
  | case10 place d rest here dot dots short next target link more links ih =>
      rw [List.cons_append, t.locate_step false (links + 1) (rest ++ [c]) (by simpa using here)
        ⟨dot, dots⟩ short, link]
      dsimp only
      rw [if_neg (by simp), ← List.append_assoc]
      exact ih leads
  | case11 links place d rest here dot dots short next e noLink there ih =>
      rw [List.cons_append, t.locate_step false links (rest ++ [c]) (by simpa using here)
        ⟨dot, dots⟩ short, there]
      cases e with
      | link target => exact (noLink target rfl).elim
      | directory | file => exact ih leads

end Conveyor.FileTree
