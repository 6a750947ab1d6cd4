import Conveyor.Cache.Directory
import Conveyor.Proofs.Effect
import Conveyor.Proofs.Files.Tree

/-!
What changes of the file tree do where nothing but directories stands in the way. Each result is said
of the whole tree: the places that are new or different, and that all others are as before.
-/

namespace Conveyor.FileTree

/-- Nothing but directories stands at a place and above it. -/
def Passable (t : FileTree) (l : Location) : Prop :=
  ∀ m, m <+: l → t.entryAt? m = none ∨ t.entryAt? m = some .directory

theorem Passable.linkFree {t : FileTree} {l : Location} (h : t.Passable l) : t.LinkFree l := by
  intro m hm target hlink
  rcases h m hm with h | h <;> simp [h] at hlink

theorem Passable.above {t : FileTree} {l m : Location} (h : t.Passable l) (hm : m <+: l) :
    t.Passable m :=
  fun n hn => h n (hn.trans hm)

theorem WellFormed.passable {t : FileTree} (wf : t.WellFormed) {l : Location}
    (h : t.entryAt? l = some .directory) : t.Passable l := by
  intro m hm
  by_cases hne : m = l
  · exact .inr (hne ▸ h)
  · exact .inr (wf.directory_of_prefix h hm hne)

theorem WellFormed.makeDirectory_new {t : FileTree} (wf : t.WellFormed) {l : Location}
    (names : ∀ c ∈ l, IsName c) (parent : t.entryAt? l.dropLast = some .directory)
    (h : t.entryAt? l = none) : t.makeDirectory l = .ok (t.set l .directory) := by
  simp only [makeDirectory, wf.followParent_eq names parent, bind, Except.bind, h]
  rfl

theorem WellFormed.makeDirectory_old {t : FileTree} (wf : t.WellFormed) {l : Location} {e : Entry}
    (h : t.entryAt? l = some e) : t.makeDirectory l = .error .alreadyExists := by
  have place := wf.followParent_eq (wf.named l e h) (wf.above l e h)
  simp only [makeDirectory, place, bind, Except.bind, h]
  rfl

theorem makeDirectory_missing {t : FileTree} {l : Location} (names : ∀ c ∈ l, IsName c)
    (pass : t.Passable l) (parent : t.entryAt? l.dropLast = none) :
    t.makeDirectory l = .error .notFound := by
  have hne : l.dropLast ≠ l := by
    intro h
    cases l with
    | nil => simp at parent
    | cons c rest =>
        have := congrArg List.length h
        simp at this
  have step := t.locate_plain false linkLimit [] l names rfl (fun r hr _ => pass.linkFree r hr)
  rw [makeDirectory, followParent]
  generalize t.locate false linkLimit [] l = answer at step ⊢
  cases step with
  | there dirs =>
      have above := dirs _ l.dropLast_prefix hne
      simp [parent] at above
  | missing _ _ _ => rfl
  | @blocked r c m hr _ file =>
      cases pass r hr with
      | inl h | inr h => simp [h] at file

/-- The tree in which a place and everything above it are directories. -/
structure Opened (t t' : FileTree) (l : Location) : Prop where
  wellFormed : t'.WellFormed
  view : ∀ m, t'.entryAt? m = if m <+: l then some .directory else t.entryAt? m

theorem Opened.of_directory {t : FileTree} (wf : t.WellFormed) {l : Location}
    (h : t.entryAt? l = some .directory) : t.Opened t l := by
  refine ⟨wf, fun m => ?_⟩
  split
  · rename_i hm
    by_cases hne : m = l
    · rw [hne, h]
    · exact wf.directory_of_prefix h hm hne
  · rfl

theorem length_dropLast_lt {l : Location} (hl : l ≠ []) : l.dropLast.length < l.length := by
  have := List.length_pos_of_ne_nil hl
  rw [List.length_dropLast]
  omega

theorem ne_nil_of_missing {t : FileTree} {l : Location} (h : t.entryAt? l = none) : l ≠ [] := by
  rintro rfl
  cases h

section Opened

variable {t t' : FileTree} {l m : Location}

theorem Opened.above (opened : t.Opened t' l) (hm : m <+: l) : t'.entryAt? m = some .directory := by
  rw [opened.view, if_pos hm]

theorem Opened.itself (opened : t.Opened t' l) : t'.entryAt? l = some .directory :=
  opened.above (List.prefix_refl l)

theorem Opened.other (opened : t.Opened t' l) (hm : ¬ m <+: l) : t'.entryAt? m = t.entryAt? m := by
  rw [opened.view, if_neg hm]

theorem Opened.child (opened : t.Opened t' l.dropLast) (hl : l ≠ []) :
    t'.entryAt? l = t.entryAt? l := by
  apply opened.other
  intro h
  have := h.length_le
  have := length_dropLast_lt hl
  omega

/-- A last directory below an opened place. -/
theorem Opened.makeDirectory (opened : t.Opened t' l.dropLast) (names : ∀ c ∈ l, IsName c)
    (missing : t.entryAt? l = none) :
    t'.makeDirectory l = .ok (t'.set l .directory) ∧ t.Opened (t'.set l .directory) l := by
  have hl := ne_nil_of_missing missing
  have new := (opened.child hl).trans missing
  refine ⟨opened.wellFormed.makeDirectory_new names opened.itself new,
    opened.wellFormed.set hl names opened.itself (.inl rfl), fun m => ?_⟩
  rw [entryAt?_set t' hl, opened.view]
  obtain ⟨init, c, rfl⟩ := (List.eq_nil_or_concat l).resolve_left hl
  simp only [List.concat_eq_append, List.dropLast_concat, List.prefix_concat_iff]
  by_cases heq : m = init ++ [c] <;> simp [heq]

end Opened

theorem WellFormed.tolerate_directory {t : FileTree} (wf : t.WellFormed) {l : Location}
    (h : t.entryAt? l = some .directory) : t.tolerate l .alreadyExists = .ok () := by
  have answer : t.isDirectory l = .ok true := wf.ask_eq h (by simp) _
  simp [tolerate, answer]

theorem WellFormed.makeDirectories_old {t : FileTree} (wf : t.WellFormed) {l : Location}
    (h : t.entryAt? l = some .directory) : t.makeDirectories l = (.ok (), t) := by
  have hnul : checkNul l = .ok () := by
    simp only [checkNul, noNul_of_names (wf.named l _ h), Bool.false_eq_true, if_false]
  rw [makeDirectories, hnul, wf.makeDirectory_old h]
  simp [wf.tolerate_directory h]

/-- Making the directories of a passable place opens it. The induction is on the way up that the
operation takes; on the way down every directory is new. -/
theorem WellFormed.makeDirectories_eq {t : FileTree} (wf : t.WellFormed) {l : Location}
    (names : ∀ c ∈ l, IsName c) (pass : t.Passable l) :
    ∃ t', t.makeDirectories l = (.ok (), t') ∧ t.Opened t' l := by
  have hnul : checkNul l = .ok () := by
    simp only [checkNul, noNul_of_names names, Bool.false_eq_true, if_false]
  cases pass l (List.prefix_refl l) with
  | inl hnone =>
      have hl := ne_nil_of_missing hnone
      cases pass l.dropLast l.dropLast_prefix with
      | inl hmissing =>
          have shorter := length_dropLast_lt hl
          obtain ⟨t₁, hrun, opened⟩ := wf.makeDirectories_eq (l := l.dropLast)
            (fun c hc => names c (List.mem_of_mem_dropLast hc)) (pass.above l.dropLast_prefix)
          obtain ⟨made, opened⟩ := opened.makeDirectory names hnone
          refine ⟨_, ?_, opened⟩
          rw [makeDirectories, hnul, makeDirectory_missing names pass hmissing]
          simp only [hl, if_false, hrun, makeLast, made]
      | inr hparent =>
          obtain ⟨made, opened⟩ := (Opened.of_directory wf hparent).makeDirectory names hnone
          refine ⟨_, ?_, opened⟩
          rw [makeDirectories, hnul, made]
  | inr hdir => exact ⟨t, wf.makeDirectories_old hdir, .of_directory wf hdir⟩
termination_by l.length

/-- A directory is opened in another, or its name is too long and nothing is changed. -/
theorem WellFormed.makeDirectories_child {t : FileTree} (wf : t.WellFormed) {directory : Location}
    (there : t.entryAt? directory = some .directory) {c : String} (component : IsComponent c)
    (noNul : '\x00' ∉ c.toList)
    (old : t.entryAt? (directory ++ [c]) = none ∨ t.entryAt? (directory ++ [c]) = some .directory) :
    (∃ t', t.makeDirectories (directory ++ [c]) = (.ok (), t') ∧ t.Opened t' (directory ++ [c]) ∧
        IsName c) ∨
      nameLimit < c.utf8ByteSize ∧ ∃ f, t.makeDirectories (directory ++ [c]) = (.error f, t) := by
  by_cases long : nameLimit < c.utf8ByteSize
  · have clean : ((directory ++ [c]).any fun c => c.toList.contains '\x00') = false := by
      rw [List.any_append, noNul_of_names (wf.named _ _ there)]
      simpa using noNul
    have refused : t.makeDirectory (directory ++ [c]) = .error .nameTooLong := by
      rw [makeDirectory, followParent, wf.locate_long there component long]
      rfl
    have stat : t.stat (directory ++ [c]) = .error .nameTooLong := by
      rw [FileTree.stat, follow, wf.locate_long there component long]
      rfl
    have asked : t.isDirectory (directory ++ [c]) =
        .error (.file ⟨.nameTooLong, Location.text (directory ++ [c])⟩) := by
      rw [isDirectory, ask, clean, stat]
      rfl
    refine .inr ⟨long, ?_⟩
    rw [makeDirectories, checkNul, clean, refused]
    simp only [Bool.false_eq_true, if_false, tolerate, asked]
    exact ⟨_, rfl⟩
  · have name : IsName c := ⟨component, noNul, Nat.not_lt.mp long⟩
    have pass : t.Passable (directory ++ [c]) := by
      intro m hm
      rcases List.prefix_concat_iff.mp hm with rfl | above
      · exact old
      · exact wf.passable there m above
    obtain ⟨t', made, opened⟩ := wf.makeDirectories_eq
      (List.forall_mem_append.mpr ⟨wf.named _ _ there, List.forall_mem_singleton.mpr name⟩) pass
    exact .inl ⟨t', made, opened, name⟩

/-- A file with the given content stands at a place, and nothing else is changed. -/
structure Written (t t' : FileTree) (l : Location) (c : Content) : Prop where
  wellFormed : t'.WellFormed
  file : ∃ m, t'.entryAt? l = some (.file c m)
  others : ∀ m, m ≠ l → t'.entryAt? m = t.entryAt? m

theorem WellFormed.set_file {t : FileTree} (wf : t.WellFormed) {l : Location} (hl : l ≠ [])
    (names : ∀ c ∈ l, IsName c) (parent : t.entryAt? l.dropLast = some .directory)
    (free : t.entryAt? l ≠ some .directory) (c : Content) (m : Int) :
    t.Written (t.set l (.file c m)) l c := by
  refine ⟨wf.set hl names parent (.inr free), ⟨m, ?_⟩, fun n hn => ?_⟩
  · rw [entryAt?_set t hl, if_pos rfl]
  · rw [entryAt?_set t hl, if_neg hn]

theorem WellFormed.writeFile_eq {t : FileTree} (wf : t.WellFormed) {l : Location} (hl : l ≠ [])
    (names : ∀ c ∈ l, IsName c) (parent : t.entryAt? l.dropLast = some .directory)
    (free : t.entryAt? l ≠ some .directory) (notLink : ∀ target, t.entryAt? l ≠ some (.link target))
    (c : Content) : ∃ t', t.writeFile l c = .ok t' ∧ t.Written t' l c := by
  have place := wf.follow_eq names parent notLink
  match h : t.entryAt? l with
  | none =>
      refine ⟨_, ?_, wf.set_file hl names parent free c 0⟩
      simp only [writeFile, place, bind, Except.bind, h]
      rfl
  | some (.file old m) =>
      refine ⟨_, ?_, wf.set_file hl names parent free c m⟩
      simp only [writeFile, place, bind, Except.bind, h]
      rfl
  | some (.link target) => exact absurd h (notLink target)
  | some .directory => exact absurd h free

theorem WellFormed.replaceFile_eq {t : FileTree} (wf : t.WellFormed) {l : Location}
    (names : ∀ c ∈ l, IsName c) (parent : t.entryAt? l.dropLast = some .directory)
    (free : t.entryAt? l ≠ some .directory) (c : Content) (m : Int) :
    t.replaceFile l c m = .ok (t.set l (.file c m)) := by
  have place := wf.followParent_eq names parent
  unfold replaceFile
  simp only [place, bind, Except.bind]
  rfl

theorem WellFormed.readFile_eq {t : FileTree} (wf : t.WellFormed) {l : Location} {c : Content}
    {m : Int} (h : t.entryAt? l = some (.file c m)) : t.readFile l = .ok c := by
  simp only [readFile, wf.stat_eq h (by simp), bind, Except.bind]
  rfl

/-- All that stands in a tree stands in another. -/
def GrowsTo (t t' : FileTree) : Prop := ∀ l e, t.entryAt? l = some e → t'.entryAt? l = some e

theorem GrowsTo.refl (t : FileTree) : t.GrowsTo t := fun _ _ h => h

theorem GrowsTo.trans {t t' t'' : FileTree} (first : t.GrowsTo t') (second : t'.GrowsTo t'') :
    t.GrowsTo t'' :=
  fun l e h => second l e (first l e h)

/-- A directory is made only where nothing stands. -/
theorem makeDirectory_ok {t t' : FileTree} {l : Location} (h : t.makeDirectory l = .ok t') :
    ∃ place, t.followParent l = .ok place ∧ t.entryAt? place = none ∧ t' = t.set place .directory := by
  unfold makeDirectory at h
  obtain ⟨place, leads, h⟩ := ok_of_bind_ok h
  cases there : t.entryAt? place with
  | some e =>
      rw [there] at h
      cases h
  | none =>
      rw [there] at h
      exact ⟨place, leads, there, (Except.ok.inj h).symm⟩

theorem makeDirectory_grows {t t' : FileTree} {l : Location} (h : t.makeDirectory l = .ok t') :
    t.GrowsTo t' := by
  obtain ⟨place, -, there, rfl⟩ := makeDirectory_ok h
  intro m e found
  rw [entryAt?_set t (ne_nil_of_missing there), if_neg, found]
  rintro rfl
  cases there.symm.trans found

section Keeps

variable {P : FileTree → Prop} (step : ∀ t t' l, t.makeDirectory l = .ok t' → P t → P t')
include step

theorem makeLast_keeps {t : FileTree} (start : P t) (l : Location) : P (t.makeLast l).2 := by
  unfold makeLast
  split
  · rename_i made
    exact step _ _ _ made start
  · exact start

/-- What each directory that is made keeps is kept when all have been made, also where a fault ends that. -/
theorem makeDirectories_keeps {t : FileTree} (start : P t) (l : Location) : P (t.makeDirectories l).2 := by
  rw [makeDirectories]
  split
  · exact start
  · rename_i made
    exact step _ _ _ made start
  · split
    · exact start
    · rename_i hl
      have shorter := length_dropLast_lt hl
      have above := makeDirectories_keeps start l.dropLast
      split
      · rename_i run
        rwa [run] at above
      · rename_i run
        rw [run] at above
        exact makeLast_keeps step above l
  · exact start
termination_by l.length

end Keeps

theorem makeDirectories_grows (t : FileTree) (l : Location) : t.GrowsTo (t.makeDirectories l).2 :=
  makeDirectories_keeps (P := t.GrowsTo) (fun _ _ _ made grows => grows.trans (makeDirectory_grows made))
    (.refl t) l

end Conveyor.FileTree
