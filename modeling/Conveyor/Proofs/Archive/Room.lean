import Conveyor.Archive.Extract
import Conveyor.Proofs.Effect
import Conveyor.Proofs.Files.Change

/-!
The room that an extraction makes for a member, where nothing but directories stands in the way, and
where members go whose names are components below the directory.
-/

namespace Conveyor.Tar

open FileTree

theorem run_change_ok {l : Location} {f : FileTree → Except Refusal FileTree} {t t' : FileTree}
    (h : f t = .ok t') : (change l f).run.run t = (.ok (), t') := by
  simp only [change, ExceptT.run_mk, StateT.run, h]

theorem run_change_error {l : Location} {f : FileTree → Except Refusal FileTree} {t : FileTree}
    {r : Refusal} (h : f t = .error r) :
    (change l f).run.run t = (.error (.refused ⟨r, Location.text l⟩), t) := by
  simp only [change, ExceptT.run_mk, StateT.run, h]

section OnRefusal

variable {work : Extraction Unit} {otherwise : FileError → Extraction Unit} {t t' : FileTree}

theorem run_onRefusal_refused {e : FileError} (h : work.run.run t = (.error (.refused e), t')) :
    (onRefusal work otherwise).run.run t = (otherwise e).run.run t' := by
  rw [StateT.run] at h
  simp only [onRefusal, ExceptT.run_mk, StateT.run, h]

theorem run_onRefusal_other {answer : Except ExtractFailure Unit}
    (h : work.run.run t = (answer, t')) (other : ∀ e, answer ≠ .error (.refused e)) :
    (onRefusal work otherwise).run.run t = (answer, t') := by
  rw [StateT.run] at h
  simp only [onRefusal, ExceptT.run_mk, StateT.run, h]
  split
  · rename_i e t₁ heq
    cases heq
    exact absurd rfl (other e)
  · rfl

end OnRefusal

theorem run_stands_missing {t : FileTree} {l : Location} (names : ∀ c ∈ l, IsName c)
    (free : t.LinkFree l) (h : t.entryAt? l = none) :
    (stands l).run.run t = (.ok false, t) := by
  show (Except.ok (t.stat l).toBool, t) = _
  cases stat_of_none names free h with
  | inl hstat =>
      rw [hstat]
      rfl
  | inr hstat =>
      rw [hstat]
      rfl

theorem run_stands_directory {t : FileTree} (rooted : t.Rooted) {l : Location}
    (names : ∀ c ∈ l, IsName c) (h : t.entryAt? l = some .directory) :
    (stands l).run.run t = (.ok true, t) := by
  show (Except.ok (t.stat l).toBool, t) = _
  rw [rooted.stat_eq names h (by simp)]
  rfl

/-- Making a missing directory opens its place. The induction is on the way up to what is there. -/
theorem run_makeMissing {t : FileTree} (wf : t.WellFormed) {l : Location}
    (names : ∀ c ∈ l, IsName c) (pass : t.Passable l) (missing : t.entryAt? l = none) :
    ∃ t', (makeMissing l).run.run t = (.ok (), t') ∧ t.Opened t' l := by
  have hl := ne_nil_of_missing missing
  have shorter := length_dropLast_lt hl
  have namesAbove : ∀ c ∈ l.dropLast, IsName c := fun c hc => names c (List.mem_of_mem_dropLast hc)
  have passAbove := pass.above l.dropLast_prefix
  -- what is left to do once the place above is open
  have last : ∀ t₁, t.Opened t₁ l.dropLast →
      (change l (·.makeDirectory l)).run.run t₁ = (.ok (), t₁.set l .directory) ∧
        t.Opened (t₁.set l .directory) l := by
    intro t₁ opened
    obtain ⟨made, opened⟩ := opened.makeDirectory names missing
    exact ⟨run_change_ok made, opened⟩
  rw [makeMissing]
  split
  · cases passAbove l.dropLast (List.prefix_refl _) with
    | inl hnone =>
        have notDot : l.getLastD "" ≠ "." := by
          rw [List.getLastD_eq_getLast?, List.getLast?_eq_some_getLast hl]
          exact (names _ (List.getLast_mem hl)).component.2.1
        obtain ⟨t₁, hrun, opened⟩ := run_makeMissing wf namesAbove passAbove hnone
        refine ⟨_, ?_, (last t₁ opened).2⟩
        rw [run_bind_ok (run_stands_missing namesAbove passAbove.linkFree hnone)]
        simp only [Bool.not_false, if_true, notDot, if_false]
        rw [run_bind_ok (run_onRefusal_other hrun (by simp))]
        exact (last t₁ opened).1
    | inr hdir =>
        obtain ⟨made, opened⟩ := last t (.of_directory wf hdir)
        refine ⟨_, ?_, opened⟩
        rw [run_bind_ok (run_stands_directory wf.above namesAbove hdir)]
        simp only [Bool.not_true, Bool.false_eq_true, if_false]
        exact made
  · rename_i top
    have top : l.dropLast = [] := by simpa using top
    exact ⟨_, last t (.of_directory wf (by rw [top]; rfl))⟩
termination_by l.length

theorem run_makeRoom_of_stands {t : FileTree} {l : Location} (names : ∀ c ∈ l, IsName c)
    (there : (stands l.dropLast).run.run t = (.ok true, t)) : (makeRoom l).run.run t = (.ok (), t) := by
  rw [makeRoom, if_neg (by rw [noNul_of_names names]; simp), run_bind_ok there]
  rfl

theorem run_makeRoom_directory {t : FileTree} (rooted : t.Rooted) {l : Location}
    (names : ∀ c ∈ l, IsName c) (parent : t.entryAt? l.dropLast = some .directory) :
    (makeRoom l).run.run t = (.ok (), t) :=
  run_makeRoom_of_stands names
    (run_stands_directory rooted (fun c hc => names c (List.mem_of_mem_dropLast hc)) parent)

theorem run_makeRoom {t : FileTree} (wf : t.WellFormed) {l : Location} (names : ∀ c ∈ l, IsName c)
    (pass : t.Passable l.dropLast) :
    ∃ t', (makeRoom l).run.run t = (.ok (), t') ∧ t.Opened t' l.dropLast := by
  have namesAbove : ∀ c ∈ l.dropLast, IsName c := fun c hc => names c (List.mem_of_mem_dropLast hc)
  cases pass l.dropLast (List.prefix_refl _) with
  | inl hnone =>
      obtain ⟨t', hrun, opened⟩ := run_makeMissing wf namesAbove pass hnone
      rw [makeRoom, if_neg (by rw [noNul_of_names names]; simp),
        run_bind_ok (run_stands_missing namesAbove pass.linkFree hnone)]
      exact ⟨t', hrun, opened⟩
  | inr hdir => exact ⟨t, run_makeRoom_directory wf.above names hdir, .of_directory wf hdir⟩

theorem rawParts_intercalate {parts : List String} (hne : parts ≠ [])
    (components : ∀ c ∈ parts, IsComponent c) : rawParts ("/".intercalate parts) = parts := by
  rw [rawParts, splitSlashes_intercalate hne components, List.filter_eq_self]
  intro c hc
  simpa using (components c hc).1

/-- A member whose name is made of components goes below the directory. -/
theorem target_intercalate (root : Location) {parts : List String} (hne : parts ≠ [])
    (components : ∀ c ∈ parts, IsComponent c) : target root ("/".intercalate parts) = root ++ parts := by
  obtain ⟨c, cs, htext, hc⟩ := head_intercalate hne components
  have relative : ("/".intercalate parts).startsWith "/" = false := by
    rw [String.startsWith_string_eq_false_iff, htext]
    intro h
    exact hc (List.cons_prefix_cons.mp h).1.symm
  rw [target, relative, rawParts_intercalate hne components]
  rfl

end Conveyor.Tar
