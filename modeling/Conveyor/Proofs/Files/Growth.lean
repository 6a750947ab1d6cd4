import Conveyor.Proofs.Files.Change
import Conveyor.Proofs.Files.Removal

/-!
Directories that are added to a tree. A path that led to something still leads there, and the links are
as before; so the real places of paths are as before, except where what was missing had kept a path from
going round in links.
-/

namespace Conveyor.FileTree

section Lookup

variable {t t' : FileTree} (grows : t.GrowsTo t')
include grows

theorem GrowsTo.inside {l : Location} (h : ¬ (!t.isDirectoryAt l) = true) :
    ¬ (!t'.isDirectoryAt l) = true := by
  have inside : t.isDirectoryAt l = true := by simpa using h
  rw [isDirectoryAt_eq_true] at inside
  simpa using (t'.isDirectoryAt_eq_true l).mpr (grows _ _ inside)

/-- Where looking a path up ends, it ends when a tree has grown, if what stands there then is no link. -/
theorem GrowsTo.locate {last : Bool} {links : Nat} {place real : Location} {parts : List String} {e : Entry}
    (leads : t.locate last links place parts = .ok real) (there : t'.entryAt? real = some e)
    (notLink : ∀ target, e ≠ .link target) : t'.locate true links place parts = .ok real := by
  fun_induction t.locate last links place parts with
  | case1 links place =>
      rw [FileTree.locate]
      exact leads
  | case2 | case5 | case7 | case9 => cases leads
  | case3 links place c rest inside dot ih =>
      rw [FileTree.locate, if_neg (grows.inside inside), if_pos dot]
      exact ih leads
  | case4 links place rest inside dot ih =>
      rw [FileTree.locate, if_neg (grows.inside inside), if_neg dot, if_pos rfl]
      exact ih leads
  | case6 links place c rest inside dot dots short here missing ended =>
      obtain rfl := Except.ok.inj leads
      rw [t'.locate_step true links rest (by simpa using grows.inside inside) ⟨dot, dots⟩ short, there,
        List.isEmpty_iff.mp ended]
      cases e with
      | link target => exact absurd rfl (notLink target)
      | directory | file => simp [FileTree.locate, here]
  | case8 links place c rest inside dot dots short here target link itself =>
      obtain rfl := Except.ok.inj leads
      exact absurd (Option.some.inj (there.symm.trans (grows _ _ link))) (notLink target)
  | case10 place c rest inside dot dots short here target link more links ih =>
      rw [t'.locate_step true (links + 1) rest (by simpa using grows.inside inside) ⟨dot, dots⟩ short,
        grows _ _ link]
      dsimp only
      rw [if_neg (by simp)]
      exact ih leads
  | case11 links place c rest inside dot dots short here e noLink stands ih =>
      rw [t'.locate_step true links rest (by simpa using grows.inside inside) ⟨dot, dots⟩ short,
        grows _ _ stands]
      cases e with
      | link target => exact (noLink target rfl).elim
      | directory | file => exact ih leads

end Lookup

theorem isDirectory_eq_true_iff (t : FileTree) (l : Location) : t.isDirectory l = .ok true ↔
    (l.any fun c => c.toList.contains '\x00') = false ∧
      ∃ place, t.follow l = .ok place ∧ t.entryAt? place = some .directory := by
  constructor
  · intro h
    obtain ⟨noNul, e, found, directory⟩ := ask_eq_true h
    obtain ⟨place, leads, found⟩ := ok_of_bind_ok found
    refine ⟨noNul, place, leads, ?_⟩
    cases there : t.entryAt? place with
    | none =>
        rw [there] at found
        cases found
    | some e' =>
        rw [there] at found
        cases found
        cases e with
        | directory => rfl
        | file | link => cases directory
  · rintro ⟨noNul, place, leads, there⟩
    have found : t.stat l = .ok .directory := by
      simp only [FileTree.stat, leads, bind, Except.bind, there]
      rfl
    simp only [isDirectory, ask, noNul, Bool.false_eq_true, if_false, found]

theorem GrowsTo.isDirectory {t t' : FileTree} (grows : t.GrowsTo t') {l : Location}
    (h : t.isDirectory l = .ok true) : t'.isDirectory l = .ok true := by
  rw [isDirectory_eq_true_iff] at h ⊢
  obtain ⟨noNul, place, leads, there⟩ := h
  exact ⟨noNul, place, grows.locate leads (grows _ _ there) (by simp), grows _ _ there⟩

/-- Nothing is changed but that directories are new, which stand where nothing stood and of which
something holds. -/
structure Gains (t t' : FileTree) (new : Location → Prop) : Prop where
  clock : t'.clock = t.clock
  view : ∀ l, t'.entryAt? l = t.entryAt? l ∨
    t.entryAt? l = none ∧ t'.entryAt? l = some .directory ∧ new l

namespace Gains

variable {t t' t'' : FileTree} {new new' : Location → Prop}

theorem refl (t : FileTree) (new : Location → Prop) : t.Gains t new := ⟨rfl, fun _ => .inl rfl⟩

theorem grows (h : t.Gains t' new) : t.GrowsTo t' := by
  intro l e there
  rcases h.view l with same | ⟨missing, -⟩
  · rw [same, there]
  · cases missing.symm.trans there

theorem mono (h : t.Gains t' new) (weaker : ∀ l, t'.entryAt? l = some .directory → new l → new' l) :
    t.Gains t' new' :=
  ⟨h.clock, fun l => (h.view l).imp_right fun ⟨missing, made, holds⟩ =>
    ⟨missing, made, weaker l made holds⟩⟩

theorem trans (first : t.Gains t' new) (second : t'.Gains t'' new) : t.Gains t'' new := by
  refine ⟨second.clock.trans first.clock, fun l => ?_⟩
  rcases second.view l with same | ⟨missing, made, holds⟩
  · rw [same]
    exact first.view l
  · rcases first.view l with same | ⟨-, made', -⟩
    · exact .inr ⟨same ▸ missing, made, holds⟩
    · cases made'.symm.trans missing

theorem sameLinks (h : t.Gains t' new) : t.SameLinks t' := by
  intro l target
  rcases h.view l with same | ⟨missing, made, -⟩
  · rw [same]
  · simp [missing, made]

end Gains

/-- A path above a place, or the path of the place itself, leads there. -/
def LeadsAbove (t : FileTree) (l place : Location) : Prop :=
  ∃ above, above <+: l ∧ t.follow above = .ok place

theorem GrowsTo.leadsAbove {t t' : FileTree} (grows : t.GrowsTo t') {l place : Location} {e : Entry}
    (leads : t.LeadsAbove l place) (there : t'.entryAt? place = some e)
    (notLink : ∀ target, e ≠ .link target) :
    t'.LeadsAbove l place := by
  obtain ⟨above, hl, leads⟩ := leads
  exact ⟨above, hl, grows.locate leads there notLink⟩

theorem LeadsAbove.extend {t : FileTree} {l m place : Location} (leads : t.LeadsAbove m place)
    (h : m <+: l) : t.LeadsAbove l place := by
  obtain ⟨above, hm, leads⟩ := leads
  exact ⟨above, hm.trans h, leads⟩

/-- Where no link stands, what a place or one above it leads to is the place or one above it. -/
theorem LeadsAbove.prefix_of_linkFree {t : FileTree} {l place : Location} (leads : t.LeadsAbove l place)
    (plain : ∀ c ∈ l, IsPlain c) (free : t.LinkFree l) : place <+: l := by
  obtain ⟨above, hl, leads⟩ := leads
  rw [follow_of_linkFree (fun c hc => plain c (hl.subset hc)) (free.of_prefix hl) leads]
  exact hl

/-- The directory that is made is what its path leads to from then on. -/
theorem makeDirectory_gains {t t' : FileTree} {l : Location} (h : t.makeDirectory l = .ok t') :
    t.Gains t' (t'.LeadsAbove l) ∧
      ∃ place, t'.follow l = .ok place ∧ t'.entryAt? place = some .directory := by
  have grows := makeDirectory_grows h
  obtain ⟨place, leads, missing, rfl⟩ := makeDirectory_ok h
  have made : (t.set place .directory).entryAt? place = some .directory := by
    rw [entryAt?_set t (ne_nil_of_missing missing), if_pos rfl]
  have follows := grows.locate leads made (by simp)
  refine ⟨⟨rfl, fun m => ?_⟩, place, follows, made⟩
  by_cases itself : m = place
  · exact .inr ⟨itself ▸ missing, itself ▸ made, l, List.prefix_refl l, itself ▸ follows⟩
  · exact .inl (by rw [entryAt?_set t (ne_nil_of_missing missing), if_neg itself])

theorem tolerate_ok {t : FileTree} {l : Location} {r : Refusal} (h : t.tolerate l r = .ok ()) :
    t.isDirectory l = .ok true := by
  unfold tolerate at h
  split at h
  · cases h
  · split at h
    · assumption
    · cases h
    · cases h

theorem makeLast_gains (t : FileTree) (l : Location) :
    t.Gains (t.makeLast l).2 ((t.makeLast l).2.LeadsAbove l) := by
  unfold makeLast
  split
  · rename_i made
    exact (makeDirectory_gains made).1
  · exact .refl t _

/-- Directories are made on the way to a place, and nothing else is changed, whether it ends in a fault or
not. -/
theorem makeDirectories_gains (t : FileTree) (l : Location) :
    t.Gains (t.makeDirectories l).2 ((t.makeDirectories l).2.LeadsAbove l) := by
  rw [makeDirectories]
  split
  · exact .refl t _
  · rename_i made
    exact (makeDirectory_gains made).1
  · split
    · exact .refl t _
    · rename_i hl
      have shorter := length_dropLast_lt hl
      have gains := makeDirectories_gains t l.dropLast
      split
      · rename_i above
        rw [above] at gains
        exact gains.mono fun m _ leads => leads.extend l.dropLast_prefix
      · rename_i t' above
        rw [above] at gains
        have gains' := makeLast_gains t' l
        refine .trans (gains.mono fun m made leads => ?_) gains'
        exact (gains'.grows.leadsAbove leads (gains'.grows _ _ made) (by simp)).extend l.dropLast_prefix
  · exact .refl t _
termination_by l.length

theorem Rooted.makeDirectories {t : FileTree} (rooted : t.Rooted) (l : Location) :
    (t.makeDirectories l).2.Rooted := by
  refine makeDirectories_keeps (P := Rooted) (fun t t' l made rooted => ?_) rooted l
  obtain ⟨place, leads, missing, rfl⟩ := makeDirectory_ok made
  have proper := ne_nil_of_missing missing
  have parent := rooted.locate_missing (show t.entryAt? [] ≠ none by simp) leads missing
  have kept : ∀ m, t.entryAt? m = some .directory →
      (t.set place .directory).entryAt? m = some .directory := by
    intro m there
    rw [entryAt?_set t proper]
    split <;> simp [there]
  intro m e there
  rw [entryAt?_set t proper] at there
  split at there
  · rename_i itself
    exact kept _ (itself ▸ parent)
  · exact kept _ (rooted m e there)

theorem makeLast_ok {t t' : FileTree} {l : Location}
    (noNul : (l.any fun c => c.toList.contains '\x00') = false) (h : t.makeLast l = (.ok (), t')) :
    t'.isDirectory l = .ok true := by
  unfold makeLast at h
  split at h
  · rename_i made
    cases h
    exact (isDirectory_eq_true_iff _ l).mpr ⟨noNul, (makeDirectory_gains made).2⟩
  · obtain ⟨tolerated, rfl⟩ := Prod.mk.inj h
    exact tolerate_ok tolerated

theorem makeDirectories_ok {t t' : FileTree} {l : Location} (h : t.makeDirectories l = (.ok (), t')) :
    t'.isDirectory l = .ok true := by
  have noNul : (l.any fun c => c.toList.contains '\x00') = false := by
    by_contra dirty
    rw [makeDirectories, checkNul, if_pos (by simpa using dirty)] at h
    cases h
  rw [makeDirectories] at h
  split at h
  · cases h
  · rename_i made
    exact makeLast_ok noNul (by rw [makeLast, made]; exact h)
  · split at h
    · cases h
    · split at h
      · cases h
      · exact makeLast_ok noNul h
  · rename_i refused
    exact makeLast_ok noNul (by rw [makeLast, refused]; exact h)

/-- Where all links could be resolved, none is left in the real place. -/
theorem linkFree_resolveFrom (t : FileTree) (opened : List Location) {place : Location} {parts : List String}
    (free : t.LinkFree place) (whole : (t.resolveFrom opened place parts).2 = true) :
    t.LinkFree (t.resolveFrom opened place parts).1 := by
  fun_induction t.resolveFrom opened place parts with
  | case1 => exact free
  | case2 opened place c rest dot ih => exact ih free whole
  | case3 opened place rest dot ih => exact ih (free.of_prefix (List.dropLast_prefix _)) whole
  | case4 | case6 => cases whole
  | case5 opened place c rest dot dots here target link new real inner ihInner ih =>
      have start : t.LinkFree (linkStart place target) := by
        unfold linkStart
        split
        · exact free.of_prefix List.nil_prefix
        · exact free
      rw [inner] at ihInner
      exact ih (ihInner start rfl) whole
  | case7 opened place c rest dot dots here notLink ih =>
      exact ih (free.concat notLink) whole

/-- Looking up the real place of a path goes round in links. -/
def Loops (t : FileTree) (l : Location) : Prop := t.follow (t.resolveFrom [] [] l).1 = .error .linkLoop

theorem not_loops_of_whole {t : FileTree} {l : Location} (whole : (t.resolveFrom [] [] l).2 = true) :
    ¬ t.Loops l := by
  have root : t.LinkFree [] := fun m hm target link => by
    rw [List.prefix_nil.mp hm] at link
    cases link
  have free := t.linkFree_resolveFrom [] root whole
  intro loops
  rcases t.locate_linkFree true linkLimit [] _ (t.isPlain_resolveFrom [] l (by simp)) fun r hr => free r hr
    with ended | ⟨r, failed, other⟩
  · cases ended.symm.trans loops
  · exact other (Except.error.inj (failed.symm.trans loops))

/-- The real place of a path that had one, in a tree with the same links. -/
theorem SameLinks.resolve_again {t t' : FileTree} (same : t.SameLinks t') {l real : Location}
    (h : t.resolve l = .ok real) : (¬ t'.Loops l → t'.resolve l = .ok real) ∧
      (t'.Loops l → t'.resolve l = .error (.linkLoop (Location.text real))) := by
  obtain ⟨hreal, noNul⟩ := resolve_ok h
  rw [resolveFrom_congr same] at hreal
  unfold Loops
  simp only [resolve, noNul, Bool.false_eq_true, if_false, hreal]
  constructor
  · intro leads
    split
    · rename_i loops
      exact absurd loops leads
    · rfl
  · intro loops
    rw [loops]

end Conveyor.FileTree
