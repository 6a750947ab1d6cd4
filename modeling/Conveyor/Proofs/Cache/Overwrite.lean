import Conveyor.Proofs.Cache.Unpack
import Conveyor.Proofs.Files.Follow

/-!
Putting members in places where files stand. Directories stay directories, and nothing else becomes one.
Where a link has been put in the place of a file there is a link from then on: a file that is put there
later goes where the link leads.
-/

namespace Conveyor

namespace FileTree

/-- What is not lost when files and links replace each other. -/
structure Keeps (t t' : FileTree) : Prop where
  rooted : t'.Rooted
  directories : ∀ l, t'.entryAt? l = some .directory ↔ t.entryAt? l = some .directory
  links : ∀ l target, t.entryAt? l = some (.link target) → ∃ other, t'.entryAt? l = some (.link other)

theorem Rooted.keeps_refl {t : FileTree} (rooted : t.Rooted) : t.Keeps t :=
  ⟨rooted, fun _ => Iff.rfl, fun _ target h => ⟨target, h⟩⟩

theorem Keeps.trans {t t₁ t' : FileTree} (first : t.Keeps t₁) (second : t₁.Keeps t') : t.Keeps t' where
  rooted := second.rooted
  directories l := (second.directories l).trans (first.directories l)
  links l target h := by
    obtain ⟨other, h⟩ := first.links l target h
    exact second.links l other h

section Rooted

variable {t t' : FileTree} (rooted : t.Rooted) {l : Location}
include rooted

/-- One entry is replaced, and neither is it a directory nor was one there. -/
theorem Rooted.keeps {e : Entry} (parent : t.entryAt? l.dropLast = some .directory)
    (old : t.entryAt? l ≠ some .directory) (new : e ≠ .directory)
    (link : ∀ target, t.entryAt? l = some (.link target) → ∃ other, e = .link other)
    (view : ∀ m, t'.entryAt? m = if m = l then some e else t.entryAt? m) : t.Keeps t' := by
  have directories : ∀ m, t'.entryAt? m = some .directory ↔ t.entryAt? m = some .directory := by
    intro m
    rw [view]
    split
    · rename_i here
      simp [here, old, new]
    · rfl
  refine ⟨fun m f there => ?_, directories, fun m target there => ?_⟩
  · rw [directories]
    rw [view] at there
    split at there
    · rename_i here
      rwa [here]
    · exact rooted m f there
  · rw [view]
    split
    · rename_i here
      obtain ⟨other, rfl⟩ := link target (here ▸ there)
      exact ⟨other, rfl⟩
    · exact ⟨target, there⟩

/-- A file is written where its path leads, and no link is there. -/
theorem Rooted.writeFile_keeps {c : Content} (h : t.writeFile l c = .ok t') : t.Keeps t' := by
  obtain ⟨place, follows, h⟩ := ok_of_bind_ok h
  obtain ⟨notLink, above⟩ := rooted.locate_end ⟨.directory, rfl, by simp⟩ follows
  have written : ∀ m, t.entryAt? place ≠ some .directory →
      t.entryAt? place.dropLast = some .directory → t.Keeps (t.set place (.file c m)) := by
    intro m old parent
    have proper : place ≠ [] := by
      rintro rfl
      exact old rfl
    exact rooted.keeps parent old (by simp) (fun target link => absurd link (notLink target))
      (entryAt?_set t proper _)
  split at h
  · cases h
  · rename_i there
    cases h
    exact written _ (by simp [there]) (rooted _ _ there)
  · rename_i notDirectory notFile
    cases h
    refine written _ notDirectory (above ?_)
    match there : t.entryAt? place with
    | none => rfl
    | some .directory => exact absurd there notDirectory
    | some (.file d n) => exact absurd there (notFile d n)
    | some (.link target) => exact absurd there (notLink target)

theorem Rooted.entryAt?_removeTree (old : t.entryAt? l ≠ some .directory) (m : Location) :
    (t.removeTree l).entryAt? m = if m = l then none else t.entryAt? m := by
  have proper : l ≠ [] := by
    rintro rfl
    exact old rfl
  by_cases top : m = []
  · rw [top, if_neg (Ne.symm proper)]
    rfl
  · have rest : (t.removeTree l).entryAt? m = if l.isPrefixOf m then none else t.entryAt? m := by
      simp only [entryAt?, top, if_false, removeTree, Table.get?_filter t.entries (!l.isPrefixOf ·) m]
      cases l.isPrefixOf m <;> rfl
    rw [rest]
    by_cases here : m = l
    · simp [here]
    · rw [if_neg here]
      split
      · rename_i above
        -- nothing stands below what is no directory
        by_contra there
        obtain ⟨e, there⟩ := Option.ne_none_iff_exists'.mp (Ne.symm there)
        exact old (rooted.directory_of_prefix there (List.isPrefixOf_iff_prefix.mp above) (Ne.symm here))
      · rfl

theorem Rooted.removeFile_eq (names : ∀ n ∈ l, IsName n) {e : Entry} (there : t.entryAt? l = some e)
    (old : e ≠ .directory) : t.removeFile l = .ok (t.removeTree l) := by
  simp only [removeFile, rooted.followParent_eq names (rooted l e there), bind, Except.bind, there]
  cases e with
  | directory => exact absurd rfl old
  | file _ _ | link _ => rfl

end Rooted

theorem WellFormed.removeTree {t : FileTree} (wf : t.WellFormed) {l : Location}
    (old : t.entryAt? l ≠ some .directory) : (t.removeTree l).WellFormed := by
  have view := Rooted.entryAt?_removeTree wf.above old
  refine ⟨fun m e there => ?_, fun m e there => ?_⟩ <;> rw [view] at there <;> split at there
  · cases there
  · exact wf.named m e there
  · cases there
  · have above := wf.above m e there
    have other : m.dropLast ≠ l := fun same => old (by rw [← same, above])
    rw [view, if_neg other, above]

theorem makeLink_eq {t : FileTree} {l : Location} (names : ∀ n ∈ l, IsName n)
    (dirs : ∀ m, m <+: l → m ≠ l → t.entryAt? m = some .directory) (free : t.entryAt? l = none)
    {text : String} (proper : text ≠ "") : t.makeLink l text = .ok (t.set l (.link text)) := by
  simp only [makeLink, String.isEmpty_eq_false_iff.mpr proper, Bool.false_eq_true, if_false,
    followParent_eq names dirs, bind, Except.bind, free]
  rfl

end FileTree

/-- A member with the name of one of some files: a file, or a link that leads somewhere. -/
inductive Catch.Covers (found : Catch) : Member → Prop
  | file {parts : List String} {c : Content} (there : found parts c) (d : Content) :
      Covers found (.mk ("/".intercalate parts) (.file d))
  | link {parts : List String} {c : Content} {target : String} (there : found parts c)
      (proper : target ≠ "") : Covers found (.mk ("/".intercalate parts) (.link target))

open FileTree

namespace Tar

variable {t t₁ t' : FileTree} {dest l : Location}

theorem ok_of_run_change {f : FileTree → Except Refusal FileTree}
    (h : (change l f).run.run t = (.ok (), t')) : f t = .ok t' := by
  match changed : f t with
  | .ok t₁ =>
      rw [run_change_ok changed] at h
      cases h
      rfl
  | .error r =>
      rw [run_change_error changed] at h
      cases h

theorem run_standsItself (place : t.followParent l = .ok l) :
    (standsItself l).run.run t = (.ok (t.entryAt? l).isSome, t) := by
  rw [standsItself, run_bind_ok (run_get t), place]
  rfl

/-- A link takes the place of a file or a link, or of nothing. -/
theorem Listing.run_place_link (listing : Listing) (root : Location) (fuel : Nat) (before : List Member)
    (name : String) (rooted : t.Rooted) (names : ∀ n ∈ l, IsName n)
    (parent : t.entryAt? l.dropLast = some .directory) (old : t.entryAt? l ≠ some .directory)
    {text : String} (proper : text ≠ "") :
    ∃ t', (listing.place root (fuel + 1) before (.mk name (.link text)) l).run.run t = (.ok (), t') ∧
      ∀ m, t'.entryAt? m = if m = l then some (.link text) else t.entryAt? m := by
  have hl : l ≠ [] := by
    rintro rfl
    exact old rfl
  have place := rooted.followParent_eq names parent
  -- what is left to do once nothing stands there
  have linked : ∀ t₁ : FileTree, (∀ m, t₁.entryAt? m = if m = l then none else t.entryAt? m) →
      t₁.makeLink l text = .ok (t₁.set l (.link text)) ∧
        ∀ m, (t₁.set l (.link text)).entryAt? m = if m = l then some (.link text) else t.entryAt? m := by
    intro t₁ cleared
    refine ⟨makeLink_eq names (fun m hm hne => ?_) (by rw [cleared, if_pos rfl]) proper, fun m => ?_⟩
    · rw [cleared, if_neg hne]
      exact rooted.directory_above parent hm hne
    · rw [entryAt?_set t₁ hl, cleared]
      split <;> rfl
  rw [Listing.place, run_bind_ok (run_makeRoom_directory rooted names parent)]
  cases there : t.entryAt? l with
  | none =>
      obtain ⟨made, view⟩ := linked t fun m => by
        split
        · rename_i here
          rw [here, there]
        · rfl
      refine ⟨_, run_onRefusal_other ?_ (by simp), view⟩
      rw [run_bind_ok (run_standsItself place), there]
      exact run_change_ok made
  | some e =>
      obtain ⟨made, view⟩ := linked (t.removeTree l) (rooted.entryAt?_removeTree old)
      have removed := rooted.removeFile_eq names there fun h => old (h ▸ there)
      refine ⟨_, run_onRefusal_other ?_ (by simp), view⟩
      rw [run_bind_ok (run_standsItself place), there]
      exact (run_bind_ok (run_change_ok removed)).trans (run_change_ok made)

section Covering

variable (wf : t.WellFormed) (directory : t.entryAt? dest = some .directory)
include wf directory

/-- A member that covers a file goes to its place; a link that does so stands there then. -/
theorem Listing.run_place_covering (listing : Listing) (fuel : Nat) (before : List Member)
    (kept : t.Keeps t₁) {m : Member} (covers : (t.FilesBelow dest).Covers m)
    (run : (listing.place dest (fuel + 1) before m (target dest m.name)).run.run t₁ = (.ok (), t')) :
    t₁.Keeps t' ∧ ∀ text, m.body = .link text →
      t'.entryAt? (target dest m.name) = some (.link text) := by
  have standing : ∀ {parts c}, t.FilesBelow dest parts c →
      target dest ("/".intercalate parts) = dest ++ parts ∧ (∀ n ∈ dest ++ parts, IsName n) ∧
        t₁.entryAt? (dest ++ parts).dropLast = some .directory ∧
        t₁.entryAt? (dest ++ parts) ≠ some .directory := by
    rintro parts c ⟨n, file⟩
    refine ⟨(KeptFile.place_eq (f := (parts, c)) (wf.coherent directory) ⟨n, file⟩ dest).2,
      wf.named _ _ file, (kept.directories _).mpr (wf.above _ _ file), fun h => ?_⟩
    rw [(kept.directories _).mp h] at file
    cases file
  cases covers with
  | file there d =>
      obtain ⟨goes, names, parent, -⟩ := standing there
      simp only [Member.name, goes, Listing.place] at run
      rw [run_bind_ok (run_makeRoom_directory kept.rooted names parent)] at run
      refine ⟨kept.rooted.writeFile_keeps (ok_of_run_change run), fun text body => ?_⟩
      cases body
  | @link parts c text there proper =>
      obtain ⟨goes, names, parent, old⟩ := standing there
      obtain ⟨t₂, placed, view⟩ := listing.run_place_link dest fuel before ("/".intercalate parts)
        kept.rooted names parent old proper
      simp only [Member.name, goes] at run ⊢
      rw [placed] at run
      cases run
      refine ⟨kept.rooted.keeps parent old (by simp) (fun _ _ => ⟨text, rfl⟩) view, ?_⟩
      intro other body
      cases body
      rw [view, if_pos rfl]

/-- Once members that cover files have all been put in place, a link stands wherever one of them is a
link. -/
theorem Listing.run_placeAll_covering (listing : Listing) (before : List Member) {members : List Member}
    (kept : t.Keeps t₁) (covers : ∀ m ∈ members, (t.FilesBelow dest).Covers m)
    (run : (listing.placeAll dest before members).run.run t₁ = (.ok (), t')) :
    t₁.Keeps t' ∧ ∀ m ∈ members, ∀ text, m.body = .link text →
      ∃ other, t'.entryAt? (target dest m.name) = some (.link other) := by
  induction members generalizing t₁ before with
  | nil =>
      cases run
      exact ⟨kept.rooted.keeps_refl, by simp⟩
  | cons m rest ih =>
      obtain ⟨first, others⟩ := List.forall_mem_cons.mp covers
      obtain ⟨⟨⟩, t₂, placed, run⟩ := run_ok_of_bind_ok run
      obtain ⟨step, linked⟩ := listing.run_place_covering wf directory _ before kept first placed
      obtain ⟨steps, done⟩ := ih (before ++ [m]) (kept.trans step) others run
      refine ⟨step.trans steps, List.forall_mem_cons.mpr ⟨fun text body => ?_, done⟩⟩
      exact steps.links _ text (linked text body)

end Covering

end Tar

end Conveyor
