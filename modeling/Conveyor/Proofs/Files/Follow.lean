import Conveyor.Proofs.Files.Resolve

/-!
Walks along paths. A walk goes through links one after the other and counts them; it ends where looking
the path up ends, and it never goes through a link that it is still on. So the real place of a path that
leads somewhere is the place that it leads to.
-/

namespace Conveyor.FileTree

/-- A walk from a real place along components, through a number of links. -/
inductive Walk (t : FileTree) : Nat → Location → List String → Location → Prop
  | done (place : Location) : Walk t 0 place [] place
  | skip {k : Nat} {place real : Location} {c : String} {rest : List String} (dot : c = "" ∨ c = ".")
      (h : Walk t k place rest real) : Walk t k place (c :: rest) real
  | up {k : Nat} {place real : Location} {rest : List String} (h : Walk t k place.parent rest real) :
      Walk t k place (".." :: rest) real
  | step {k : Nat} {place real : Location} {c : String} {rest : List String} (plain : IsPlain c)
      (notLink : ∀ target, t.entryAt? (place ++ [c]) ≠ some (.link target))
      (h : Walk t k (place ++ [c]) rest real) : Walk t k place (c :: rest) real
  | link {i k : Nat} {place mid real : Location} {c target : String} {rest : List String}
      (plain : IsPlain c) (link : t.entryAt? (place ++ [c]) = some (.link target))
      (inner : Walk t i (linkStart place target) (pathParts target) mid) (outer : Walk t k mid rest real) :
      Walk t (i + 1 + k) place (c :: rest) real

namespace Walk

variable {t : FileTree} {k : Nat} {place real : Location} {parts : List String}

theorem unique (h : t.Walk k place parts real) {k' : Nat} {real' : Location}
    (h' : t.Walk k' place parts real') : k = k' ∧ real = real' := by
  have dots : ¬ IsPlain ".." := fun plain => plain.2 rfl
  induction h generalizing k' real' with
  | done place =>
      cases h'
      exact ⟨rfl, rfl⟩
  | skip dot _ ih =>
      cases h' with
      | skip _ h => exact ih h
      | up _ => simp at dot
      | step plain _ _ | link plain _ _ _ => exact absurd dot plain.1
  | up _ ih =>
      cases h' with
      | skip dot _ => simp at dot
      | up h => exact ih h
      | step plain _ _ | link plain _ _ _ => exact absurd plain dots
  | step plain notLink _ ih =>
      cases h' with
      | skip dot _ => exact absurd dot plain.1
      | up _ => exact absurd plain dots
      | step _ _ h => exact ih h
      | link _ link _ _ => exact absurd link (notLink _)
  | link plain link _ _ ihInner ihOuter =>
      cases h' with
      | skip dot _ => exact absurd dot plain.1
      | up _ => exact absurd plain dots
      | step _ notLink _ => exact absurd link (notLink _)
      | link _ link' inner outer =>
          rw [link] at link'
          cases link'
          obtain ⟨rfl, rfl⟩ := ihInner inner
          obtain ⟨rfl, rfl⟩ := ihOuter outer
          exact ⟨rfl, rfl⟩

/-- A walk along some components and then others. -/
theorem split {first rest : List String} (h : t.Walk k place (first ++ rest) real) :
    ∃ i j mid, t.Walk i place first mid ∧ t.Walk j mid rest real ∧ k = i + j := by
  induction first generalizing k place with
  | nil => exact ⟨0, k, place, .done place, h, (Nat.zero_add k).symm⟩
  | cons c more ih =>
      cases h with
      | skip dot h =>
          obtain ⟨i, j, mid, before, after, rfl⟩ := ih h
          exact ⟨i, j, mid, .skip dot before, after, rfl⟩
      | up h =>
          obtain ⟨i, j, mid, before, after, rfl⟩ := ih h
          exact ⟨i, j, mid, .up before, after, rfl⟩
      | step plain notLink h =>
          obtain ⟨i, j, mid, before, after, rfl⟩ := ih h
          exact ⟨i, j, mid, .step plain notLink before, after, rfl⟩
      | @link n _ _ _ _ _ _ _ plain link inner outer =>
          obtain ⟨i, j, mid, before, after, rfl⟩ := ih outer
          exact ⟨n + 1 + i, j, mid, .link plain link inner before, after, (Nat.add_assoc _ i j).symm⟩

/-- A place that a walk from here still has to come to is not resolved on the way: the walk from such a
place has more links than are left. -/
theorem resolveFrom_eq (h : t.Walk k place parts real) {opened : List Location}
    (behind : ∀ dir c, dir ++ [c] ∈ opened → ∀ j e, t.Walk j dir [c] e → k < j) :
    t.resolveFrom opened place parts = (real, true) := by
  induction h generalizing opened with
  | done place => rw [resolveFrom]
  | skip dot _ ih =>
      rw [resolveFrom, if_pos dot]
      exact ih behind
  | up _ ih =>
      rw [resolveFrom, if_neg (by simp), if_pos rfl]
      exact ih behind
  | step plain notLink _ ih =>
      rw [resolveFrom_step t opened _ _ plain notLink]
      exact ih behind
  | @link i k place mid real c target rest plain link inner outer ihInner ihOuter =>
      have alone : t.Walk (i + 1) place [c] mid := .link plain link inner (.done mid)
      have new : ¬ opened.contains (place ++ [c]) = true := by
        intro hmem
        have := behind place c (by simpa using hmem) _ _ alone
        omega
      have followed := @ihInner ((place ++ [c]) :: opened) fun dir d hmem j e walk => by
        rcases List.mem_cons.mp hmem with same | hmem
        · obtain ⟨rfl, hd⟩ := List.append_inj' same rfl
          cases hd
          have := (walk.unique alone).1
          omega
        · have := behind dir d hmem j e walk
          omega
      rw [resolveFrom_link t opened _ _ plain link, if_neg new, followed]
      refine ihOuter fun dir d hmem j e walk => ?_
      have := behind dir d hmem j e walk
      omega

end Walk

/-- Looking a path up walks along it. -/
theorem walk_of_locate {t : FileTree} {links : Nat} {place real : Location} {parts : List String}
    (h : t.locate true links place parts = .ok real) : ∃ k, t.Walk k place parts real := by
  fun_induction t.locate true links place parts with
  | case1 links place =>
      cases h
      exact ⟨0, .done _⟩
  | case2 | case5 | case7 | case9 => cases h
  | case3 links place c rest _ dot ih =>
      obtain ⟨k, walk⟩ := ih h
      exact ⟨k, .skip dot walk⟩
  | case4 links place rest _ _ ih =>
      obtain ⟨k, walk⟩ := ih h
      exact ⟨k, .up walk⟩
  | case6 links place c rest _ dot dots _ here missing last =>
      rw [List.isEmpty_iff.mp last, ← Except.ok.inj h]
      exact ⟨0, .step ⟨dot, dots⟩ (fun target link => by simp [here, link] at missing) (.done _)⟩
  | case8 links place c rest _ _ _ _ here target link itself => simp at itself
  | case10 place c rest _ dot dots _ here target link _ links ih =>
      obtain ⟨k, walk⟩ := ih h
      obtain ⟨i, j, mid, inner, outer, rfl⟩ := walk.split
      exact ⟨_, .link ⟨dot, dots⟩ link inner outer⟩
  | case11 links place c rest _ dot dots _ here e notLink there ih =>
      obtain ⟨k, walk⟩ := ih h
      refine ⟨k, .step ⟨dot, dots⟩ (fun target link => notLink target ?_) walk⟩
      exact Option.some.inj (there.symm.trans link)

theorem LinkFree.of_prefix {t : FileTree} {l m : Location} (free : t.LinkFree l) (h : m <+: l) :
    t.LinkFree m :=
  fun p hp => free p (hp.trans h)

/-- A walk from a place without links ends at one. -/
theorem Walk.real {t : FileTree} {k : Nat} {place real : Location} {parts : List String}
    (h : t.Walk k place parts real) (plain : ∀ c ∈ place, IsPlain c) (free : t.LinkFree place) :
    (∀ c ∈ real, IsPlain c) ∧ t.LinkFree real := by
  induction h with
  | done place => exact ⟨plain, free⟩
  | skip _ _ ih => exact ih plain free
  | up _ ih =>
      exact ih (fun c hc => plain c (List.mem_of_mem_dropLast hc))
        (free.of_prefix (List.dropLast_prefix _))
  | step hc notLink _ ih =>
      exact ih (isPlain_append plain hc) (free.concat notLink)
  | @link i k place mid real c target rest _ _ _ _ ihInner ihOuter =>
      have start : (∀ d ∈ linkStart place target, IsPlain d) ∧
          t.LinkFree (linkStart place target) := by
        unfold linkStart
        split
        · exact ⟨by simp, free.of_prefix List.nil_prefix⟩
        · exact ⟨plain, free⟩
      obtain ⟨midPlain, midFree⟩ := ihInner start.1 start.2
      exact ihOuter midPlain midFree

/-- A path that leads somewhere has a real place. -/
theorem resolve_of_leads {t : FileTree} {l real : Location} (follows : t.follow l = .ok real)
    (noNul : (l.any fun c => c.toList.contains '\x00') = false) : t.resolve l = .ok real := by
  obtain ⟨k, walk⟩ := walk_of_locate follows
  have end_of_walk := walk.resolveFrom_eq fun _ _ hmem => absurd hmem List.not_mem_nil
  have free : t.LinkFree [] := fun m hm target h => by
    rw [List.prefix_nil.mp hm] at h
    cases h
  rw [resolve_of_linkFree (by rw [end_of_walk]) (walk.real (by simp) free).2, noNul]
  rfl

section Ask

variable {t : FileTree} {l : Location} {p : Entry → Bool}

/-- A question without an answer is one about a name that is too long. -/
theorem ask_eq_error {f : Fault} (h : t.ask l p = .error f) :
    (∀ q, t.ask l q = .error f) ∧ f = .file ⟨.nameTooLong, Location.text l⟩ := by
  unfold ask at h ⊢
  split at h
  · cases h
  · rename_i noNul
    simp only [noNul]
    split at h
    · cases h
    · rename_i hstat
      cases h
      simp
    · cases h

theorem ask_ok {answer : Bool} (h : t.ask l p = .ok answer) (q : Entry → Bool) :
    ∃ other, t.ask l q = .ok other := by
  match hq : t.ask l q with
  | .ok other => exact ⟨other, rfl⟩
  | .error f =>
      rw [(ask_eq_error hq).1 p] at h
      cases h

theorem ask_eq_true (h : t.ask l p = .ok true) :
    (l.any fun c => c.toList.contains '\x00') = false ∧
      ∃ e, t.stat l = .ok e ∧ p e = true := by
  unfold ask at h
  split at h
  · cases h
  · rename_i noNul
    refine ⟨by simpa using noNul, ?_⟩
    split at h
    · rename_i e hstat
      exact ⟨e, hstat, Except.ok.inj h⟩
    · cases h
    · cases h

end Ask

section Lookup

variable {t : FileTree} (rooted : t.Rooted)
include rooted

/-- Where looking a path up ends at what is missing, that stands in a directory. -/
theorem Rooted.locate_missing {last : Bool} {links : Nat} {place real : Location} {parts : List String}
    (start : t.entryAt? place ≠ none) (h : t.locate last links place parts = .ok real)
    (missing : t.entryAt? real = none) : t.entryAt? real.dropLast = some .directory := by
  have entry : ∀ {l}, ¬(!t.isDirectoryAt l) = true → t.entryAt? l = some .directory := fun {l} h =>
    (t.isDirectoryAt_eq_true l).mp (by simpa using h)
  fun_induction t.locate last links place parts with
  | case1 links place =>
      cases h
      exact absurd missing start
  | case2 | case5 | case7 | case9 => cases h
  | case3 links place c rest _ dot ih => exact ih start h
  | case4 links place rest directory _ ih =>
      exact ih (by simp [Location.parent, rooted place _ (entry directory)]) h
  | case6 links place c rest directory dot dots _ here _ last =>
      rw [← Except.ok.inj h, List.dropLast_concat]
      exact entry directory
  | case8 links place c rest directory dot dots _ here target link itself =>
      rw [← Except.ok.inj h] at missing
      cases missing.symm.trans link
  | case10 place c rest directory dot dots _ here target link _ links ih =>
      refine ih ?_ h
      unfold linkStart
      split
      · simp
      · simp [entry directory]
  | case11 links place c rest _ dot dots _ here e notLink there ih => exact ih (by simp [here, there]) h

/-- Where looking a path up ends there is no link, and what is missing there stands in a directory. -/
theorem Rooted.locate_end {links : Nat} {place real : Location} {parts : List String}
    (start : ∃ e, t.entryAt? place = some e ∧ ∀ target, e ≠ .link target)
    (h : t.locate true links place parts = .ok real) :
    (∀ target, t.entryAt? real ≠ some (.link target)) ∧
      (t.entryAt? real = none → t.entryAt? real.dropLast = some .directory) := by
  refine ⟨?_, start.elim fun e itself => rooted.locate_missing (by simp [itself.1]) h⟩
  have entry : ∀ {l}, ¬(!t.isDirectoryAt l) = true → t.entryAt? l = some .directory := fun {l} h =>
    (t.isDirectoryAt_eq_true l).mp (by simpa using h)
  fun_induction t.locate true links place parts with
  | case1 links place =>
      cases h
      obtain ⟨e, there, notLink⟩ := start
      exact fun target link => notLink target (Option.some.inj (there.symm.trans link))
  | case2 | case5 | case7 | case9 => cases h
  | case3 links place c rest _ dot ih => exact ih start h
  | case4 links place rest directory _ ih =>
      exact ih ⟨_, rooted place _ (entry directory), by simp⟩ h
  | case6 links place c rest directory dot dots _ here missing last =>
      rw [← Except.ok.inj h]
      exact fun target link => by simp [here, link] at missing
  | case8 links place c rest _ _ _ _ here target link itself => simp at itself
  | case10 place c rest directory dot dots _ here target link _ links ih =>
      refine ih ⟨.directory, ?_, by simp⟩ h
      unfold linkStart
      split
      · rfl
      · exact entry directory
  | case11 links place c rest _ dot dots _ here e notLink there ih =>
      exact ih ⟨e, there, fun target h => notLink target h⟩ h

end Lookup

/-- Where no link stands at the end of a path, following the path ends there too. -/
theorem locate_of_no_link {t : FileTree} {links : Nat} {place real : Location} {parts : List String}
    (h : t.locate false links place parts = .ok real)
    (noLink : ∀ target, t.entryAt? real ≠ some (.link target)) :
    t.locate true links place parts = .ok real := by
  fun_induction t.locate false links place parts with
  | case1 links place =>
      rw [locate]
      exact h
  | case2 | case5 | case7 | case9 => cases h
  | case3 links place c rest directory dot ih =>
      rw [locate, if_neg directory, if_pos dot]
      exact ih h
  | case4 links place rest directory dot ih =>
      rw [locate, if_neg directory, if_neg dot, if_pos rfl]
      exact ih h
  | case6 links place c rest directory dot dots short here missing ended =>
      rw [locate, if_neg directory, if_neg dot, if_neg dots, if_neg short]
      simp only [show t.entryAt? (place ++ [c]) = none from missing, if_pos ended]
      exact h
  | case8 links place c rest directory dot dots short here target link itself =>
      rw [← Except.ok.inj h] at noLink
      exact absurd link (noLink target)
  | case10 place c rest directory dot dots short here target link followed links ih =>
      have goesOn : ¬(rest.isEmpty && !true) = true := by simp
      rw [locate, if_neg directory, if_neg dot, if_neg dots, if_neg short]
      simp only [show t.entryAt? (place ++ [c]) = _ from link, if_neg goesOn]
      exact ih h
  | case11 links place c rest directory dot dots short here e notLink there ih =>
      rw [locate, if_neg directory, if_neg dot, if_neg dots, if_neg short]
      cases e with
      | link target => exact absurd rfl (notLink target)
      | directory | file _ _ =>
          simp only [show t.entryAt? (place ++ [c]) = _ from there]
          exact ih h

end Conveyor.FileTree
