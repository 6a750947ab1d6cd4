import Conveyor.Files.Change
import Conveyor.Files.Resolve
import Conveyor.Proofs.Files.Path
import Conveyor.Proofs.Table
import Mathlib.Data.List.Infix

/-!
File trees in which every entry stands in a directory under an accepted name, and looking up places
there. A place that no link leads to is its own real place; looking it up either finds it or fails
because something above it is missing or is a file.
-/

namespace Conveyor

namespace FileTree

structure WellFormed (t : FileTree) : Prop where
  named : ∀ l e, t.entryAt? l = some e → ∀ c ∈ l, IsName c
  above : ∀ l e, t.entryAt? l = some e → t.entryAt? l.dropLast = some .directory

/-- Every entry stands in a directory. -/
def Rooted (t : FileTree) : Prop :=
  ∀ l e, t.entryAt? l = some e → t.entryAt? l.dropLast = some .directory

/-- No link stands at a place or above it. -/
def LinkFree (t : FileTree) (l : Location) : Prop :=
  ∀ m, m <+: l → ∀ target, t.entryAt? m ≠ some (.link target)

@[simp] theorem entryAt?_nil (t : FileTree) : t.entryAt? [] = some .directory := rfl

theorem isDirectoryAt_eq_true (t : FileTree) (l : Location) :
    t.isDirectoryAt l = true ↔ t.entryAt? l = some .directory := by
  unfold isDirectoryAt
  split <;> simp_all

theorem entryAt?_set (t : FileTree) {l : Location} (hl : l ≠ []) (e : Entry) (m : Location) :
    (t.set l e).entryAt? m = if m = l then some e else t.entryAt? m := by
  by_cases hm : m = []
  · subst hm
    simp [entryAt?, hl.symm]
  · simp only [entryAt?, hm, if_false, set, Table.get?_put, beq_iff_eq, eq_comm (a := l)]

theorem wellFormed_empty (clock : Int) : WellFormed { entries := [], clock } := by
  have root : ∀ l e, entryAt? { entries := [], clock } l = some e → l = [] := by
    intro l e h
    by_contra hl
    simp [entryAt?, hl, Table.get?] at h
  refine ⟨fun l e h => ?_, fun l e h => ?_⟩
  · simp [root l e h]
  · rw [root l e h]
    rfl

theorem mem_entries_of_entryAt? {t : FileTree} {l : Location} {e : Entry} (h : t.entryAt? l = some e) :
    l = [] ∧ e = .directory ∨ (l, e) ∈ t.entries := by
  rw [entryAt?] at h
  split at h
  · exact .inl ⟨‹_›, (Option.some.inj h).symm⟩
  · exact .inr (Table.mem_of_get?_eq_some h)

/-- A tree that is written down can be checked entry by entry. -/
theorem wellFormed_of_entries {t : FileTree}
    (stand : ∀ x ∈ t.entries, (∀ c ∈ x.1, IsName c) ∧ t.isDirectoryAt x.1.dropLast = true) :
    t.WellFormed where
  named l e h := by
    rcases mem_entries_of_entryAt? h with ⟨rfl, -⟩ | mem
    · simp
    · exact (stand _ mem).1
  above l e h := by
    rcases mem_entries_of_entryAt? h with ⟨rfl, -⟩ | mem
    · rfl
    · exact (isDirectoryAt_eq_true _ _).mp (stand _ mem).2

theorem Rooted.directory_of_prefix {t : FileTree} (rooted : t.Rooted) {l m : Location} {e : Entry}
    (h : t.entryAt? l = some e) (hm : m <+: l) (hne : m ≠ l) : t.entryAt? m = some .directory := by
  induction l using List.reverseRecOn generalizing e with
  | nil => exact absurd (List.prefix_nil.mp hm) hne
  | append_singleton l c ih =>
      have parent := rooted _ _ h
      rw [List.dropLast_concat] at parent
      by_cases heq : m = l
      · rwa [heq]
      · have hm' : m <+: l := by
          rcases List.prefix_concat_iff.mp hm with h | h
          · exact absurd h hne
          · exact h
        exact ih parent hm' heq

theorem WellFormed.directory_of_prefix {t : FileTree} (wf : t.WellFormed) {l m : Location} {e : Entry}
    (h : t.entryAt? l = some e) (hm : m <+: l) (hne : m ≠ l) : t.entryAt? m = some .directory :=
  Rooted.directory_of_prefix wf.above h hm hne

theorem LinkFree.concat {t : FileTree} {l : Location} {c : String} (free : t.LinkFree l)
    (notLink : ∀ target, t.entryAt? (l ++ [c]) ≠ some (.link target)) : t.LinkFree (l ++ [c]) := by
  intro m hm target
  rcases List.prefix_concat_iff.mp hm with rfl | above
  · exact notLink target
  · exact free m above target

/-- Nothing is in the way to a place where nothing stands yet. -/
theorem LinkFree.concat_of_none {t : FileTree} {l : Location} {c : String} (free : t.LinkFree l)
    (missing : t.entryAt? (l ++ [c]) = none) : t.LinkFree (l ++ [c]) :=
  free.concat fun target => by simp [missing]

theorem WellFormed.linkFree {t : FileTree} (wf : t.WellFormed) {l : Location} {e : Entry}
    (h : t.entryAt? l = some e) (he : ∀ target, e ≠ .link target) : t.LinkFree l := by
  intro m hm target hlink
  by_cases hne : m = l
  · subst hne
    rw [h] at hlink
    exact he target (Option.some.inj hlink)
  · rw [wf.directory_of_prefix h hm hne] at hlink
    cases hlink

/-- A new entry that stands in a directory keeps a tree well-formed, unless it hides what a directory
held. -/
theorem WellFormed.set {t : FileTree} (wf : t.WellFormed) {l : Location} {e : Entry} (hl : l ≠ [])
    (names : ∀ c ∈ l, IsName c) (parent : t.entryAt? l.dropLast = some .directory)
    (keeps : e = .directory ∨ t.entryAt? l ≠ some .directory) : (t.set l e).WellFormed := by
  have parentNe : l.dropLast ≠ l := by
    intro h
    have hlength := congrArg List.length h
    have hpos := List.length_pos_of_ne_nil hl
    rw [List.length_dropLast] at hlength
    omega
  constructor
  · intro m f hm
    rw [entryAt?_set t hl] at hm
    split at hm
    · rename_i h
      exact h ▸ names
    · exact wf.named m f hm
  · intro m f hm
    rw [entryAt?_set t hl] at hm ⊢
    split at hm
    · rename_i h
      rw [h, if_neg parentNe, parent]
    · split
      · rename_i hdrop
        have hdir := wf.above m f hm
        rw [hdrop] at hdir
        rcases keeps with rfl | hkeeps
        · rfl
        · exact absurd hdir hkeeps
      · exact wf.above m f hm

/-- How looking up names ends that no link interrupts: at their place, or because something above it
is missing or is a file. -/
inductive LookedUp (t : FileTree) (place : Location) (parts : List String) :
    Except Refusal Location → Prop
  | there (dirs : ∀ r, r <+: parts → r ≠ parts → t.entryAt? (place ++ r) = some .directory) :
      LookedUp t place parts (.ok (place ++ parts))
  | missing {r : List String} (hr : r <+: parts) (hne : r ≠ parts)
      (absent : t.entryAt? (place ++ r) = none) : LookedUp t place parts (.error .notFound)
  | blocked {r : List String} {c : Content} {m : Int} (hr : r <+: parts) (hne : r ≠ parts)
      (file : t.entryAt? (place ++ r) = some (.file c m)) :
      LookedUp t place parts (.error .notDirectory)

section Step

variable {t : FileTree} {last : Bool} {links : Nat} {place : Location} {c : String}
  {rest : List String}

theorem LookedUp.cons {answer : Except Refusal Location}
    (dir : t.entryAt? place = some .directory) (h : t.LookedUp (place ++ [c]) rest answer) :
    t.LookedUp place (c :: rest) answer := by
  have below : ∀ r, place ++ [c] ++ r = place ++ c :: r := fun r => (List.append_cons place c r).symm
  cases h with
  | there dirs =>
      rw [below]
      refine .there fun r hr hne => ?_
      cases r with
      | nil => simpa using dir
      | cons d s =>
          obtain ⟨rfl, hs⟩ := List.cons_prefix_cons.mp hr
          rw [← below]
          exact dirs s hs fun h => hne (by rw [h])
  | @missing r hr hne absent =>
      rw [below] at absent
      exact .missing (List.cons_prefix_cons.mpr ⟨rfl, hr⟩) (by simpa using hne) absent
  | @blocked r b m hr hne file =>
      rw [below] at file
      exact .blocked (List.cons_prefix_cons.mpr ⟨rfl, hr⟩) (by simpa using hne) file

/-- One name, from a directory on. -/
theorem locate_name (hc : IsName c) (dir : t.entryAt? place = some .directory)
    (free : ∀ target, t.entryAt? (place ++ [c]) = some (.link target) → rest = [] ∧ last = false) :
    t.locate last links place (c :: rest) =
      if rest = [] then .ok (place ++ [c])
      else if t.entryAt? (place ++ [c]) = none then .error .notFound
      else t.locate last links (place ++ [c]) rest := by
  obtain ⟨hempty, hdot, hdots, -⟩ := hc.component
  have hshort : ¬ nameLimit < c.utf8ByteSize := Nat.not_lt.mpr hc.short
  have hdir : t.isDirectoryAt place = true := (t.isDirectoryAt_eq_true place).mpr dir
  rw [locate]
  simp only [hdir, Bool.not_true, Bool.false_eq_true, if_false, hempty, hdot, or_self, hdots, hshort]
  cases hentry : t.entryAt? (place ++ [c]) with
  | none => cases rest <;> simp
  | some e =>
      cases e with
      | link target =>
          obtain ⟨rfl, rfl⟩ := free target hentry
          simp
      | file _ _ | directory => cases rest <;> simp [locate]

end Step

/-- Looking up names that no link interrupts, from a directory on. -/
theorem locate_plain (t : FileTree) (last : Bool) (links : Nat) (place : Location)
    (parts : List String) (names : ∀ c ∈ parts, IsName c)
    (dir : t.entryAt? place = some .directory)
    (free : ∀ r, r <+: parts → (r = parts → last = true) →
      ∀ target, t.entryAt? (place ++ r) ≠ some (.link target)) :
    t.LookedUp place parts (t.locate last links place parts) := by
  induction parts generalizing place with
  | nil =>
      have done : t.LookedUp place [] (.ok (place ++ [])) :=
        .there fun r hr hne => absurd (List.prefix_nil.mp hr) hne
      rw [List.append_nil] at done
      rwa [locate]
  | cons c rest ih =>
      have linkFree : ∀ target, t.entryAt? (place ++ [c]) = some (.link target) →
          rest = [] ∧ last = false := by
        intro target link
        by_contra h
        refine free [c] (by simp) (fun hlast => ?_) target link
        simp only [List.cons.injEq, true_and] at hlast
        simpa [hlast.symm] using h
      rw [locate_name (names c List.mem_cons_self) dir linkFree]
      split
      · rename_i hrest
        subst hrest
        refine .there fun r hr hne => ?_
        cases r with
        | nil => simpa using dir
        | cons d s =>
            obtain ⟨rfl, hs⟩ := List.cons_prefix_cons.mp hr
            exact absurd (by rw [List.prefix_nil.mp hs]) hne
      · rename_i hrest
        have above : [c] <+: c :: rest := by simp
        have proper : [c] ≠ c :: rest := by simpa using Ne.symm hrest
        cases hentry : t.entryAt? (place ++ [c]) with
        | none =>
            rw [if_pos rfl]
            exact .missing above proper hentry
        | some e =>
            rw [if_neg (by simp)]
            cases e with
            | link target => exact absurd (linkFree target hentry).1 hrest
            | file content m =>
                have hnot : t.isDirectoryAt (place ++ [c]) = false := by
                  simp [isDirectoryAt, hentry]
                obtain ⟨d, more, rfl⟩ := List.exists_cons_of_ne_nil hrest
                rw [locate]
                simp only [hnot, Bool.not_false, if_true]
                exact .blocked above proper hentry
            | directory =>
                refine .cons dir (ih (place ++ [c])
                  (fun n hn => names n (List.mem_cons_of_mem c hn)) hentry fun r hr hlast target => ?_)
                simpa using free (c :: r) (List.cons_prefix_cons.mpr ⟨rfl, hr⟩)
                  (fun h => hlast (List.cons.inj h).2) target

theorem follow_eq {t : FileTree} {l : Location} (names : ∀ c ∈ l, IsName c) (free : t.LinkFree l)
    (dirs : ∀ m, m <+: l → m ≠ l → t.entryAt? m = some .directory) : t.follow l = .ok l := by
  have step := t.locate_plain true linkLimit [] l names rfl (fun r hr _ => free r hr)
  rw [follow]
  generalize t.locate true linkLimit [] l = answer at step ⊢
  cases step with
  | there _ => rfl
  | @missing r hr hne absent => simp [dirs r hr hne] at absent
  | @blocked r c m hr hne file => simp [dirs r hr hne] at file

theorem followParent_eq {t : FileTree} {l : Location} (names : ∀ c ∈ l, IsName c)
    (dirs : ∀ m, m <+: l → m ≠ l → t.entryAt? m = some .directory) : t.followParent l = .ok l := by
  have step := t.locate_plain false linkLimit [] l names rfl (fun r hr hlast target => by
    by_cases hne : r = l
    · cases hlast hne
    · simp [dirs r hr hne])
  rw [followParent]
  generalize t.locate false linkLimit [] l = answer at step ⊢
  cases step with
  | there _ => rfl
  | @missing r hr hne absent => simp [dirs r hr hne] at absent
  | @blocked r c m hr hne file => simp [dirs r hr hne] at file

/-- What is above a place is its parent or above that. -/
theorem prefix_dropLast {l m : Location} (hm : m <+: l) (hne : m ≠ l) : m <+: l.dropLast := by
  obtain ⟨rest, rfl⟩ := hm
  have proper : rest ≠ [] := by
    rintro rfl
    exact hne (List.append_nil m).symm
  rw [List.dropLast_append_of_ne_nil proper]
  exact List.prefix_append m _

theorem Rooted.directory_above {t : FileTree} (rooted : t.Rooted) {l m : Location}
    (parent : t.entryAt? l.dropLast = some .directory) (hm : m <+: l) (hne : m ≠ l) :
    t.entryAt? m = some .directory := by
  have hm' := prefix_dropLast hm hne
  by_cases heq : m = l.dropLast
  · rw [heq, parent]
  · exact rooted.directory_of_prefix parent hm' heq

section Rooted

variable {t : FileTree} (rooted : t.Rooted) {l : Location} (names : ∀ c ∈ l, IsName c)
include rooted names

theorem Rooted.followParent_eq (parent : t.entryAt? l.dropLast = some .directory) :
    t.followParent l = .ok l :=
  FileTree.followParent_eq names fun _ => rooted.directory_above parent

theorem Rooted.follow_eq (parent : t.entryAt? l.dropLast = some .directory)
    (notLink : ∀ target, t.entryAt? l ≠ some (.link target)) : t.follow l = .ok l := by
  apply FileTree.follow_eq names _ fun _ => rooted.directory_above parent
  intro m hm target
  by_cases hne : m = l
  · exact hne ▸ notLink target
  · simp [rooted.directory_above parent hm hne]

theorem Rooted.stat_eq {e : Entry} (h : t.entryAt? l = some e) (he : ∀ target, e ≠ .link target) :
    t.stat l = .ok e := by
  have place := rooted.follow_eq names (rooted l e h) (by simp [h, he])
  simp only [stat, place, bind, Except.bind, h]
  rfl

end Rooted

section WellFormed

variable {t : FileTree} (wf : t.WellFormed) {l : Location}
include wf

theorem WellFormed.followParent_eq (names : ∀ c ∈ l, IsName c)
    (parent : t.entryAt? l.dropLast = some .directory) : t.followParent l = .ok l :=
  Rooted.followParent_eq wf.above names parent

theorem WellFormed.follow_eq (names : ∀ c ∈ l, IsName c)
    (parent : t.entryAt? l.dropLast = some .directory)
    (notLink : ∀ target, t.entryAt? l ≠ some (.link target)) : t.follow l = .ok l :=
  Rooted.follow_eq wf.above names parent notLink

theorem WellFormed.stat_eq {e : Entry} (h : t.entryAt? l = some e) (he : ∀ target, e ≠ .link target) :
    t.stat l = .ok e :=
  Rooted.stat_eq wf.above (wf.named l e h) h he

end WellFormed

theorem stat_of_none {t : FileTree} {l : Location} (names : ∀ c ∈ l, IsName c)
    (free : t.LinkFree l) (h : t.entryAt? l = none) :
    t.stat l = .error .notFound ∨ t.stat l = .error .notDirectory := by
  have step := t.locate_plain true linkLimit [] l names rfl (fun r hr _ => free r hr)
  rw [stat, follow]
  generalize t.locate true linkLimit [] l = answer at step ⊢
  cases step with
  | there _ =>
      left
      simp only [bind, Except.bind, List.nil_append, h]
      rfl
  | missing _ _ _ => exact .inl rfl
  | blocked _ _ _ => exact .inr rfl

theorem noNul_of_names {l : Location} (names : ∀ c ∈ l, IsName c) :
    (l.any fun c => c.toList.contains '\x00') = false := by
  rw [List.any_eq_false]
  intro c hc
  simpa using (names c hc).noNul

theorem WellFormed.ask_eq {t : FileTree} (wf : t.WellFormed) {l : Location} {e : Entry}
    (h : t.entryAt? l = some e) (he : ∀ target, e ≠ .link target) (p : Entry → Bool) :
    t.ask l p = .ok (p e) := by
  simp only [ask, noNul_of_names (wf.named l e h), Bool.false_eq_true, if_false, wf.stat_eq h he]

theorem ask_of_none {t : FileTree} {l : Location} (names : ∀ c ∈ l, IsName c)
    (free : t.LinkFree l) (h : t.entryAt? l = none) (p : Entry → Bool) :
    t.ask l p = .ok false := by
  simp only [ask, noNul_of_names names, Bool.false_eq_true, if_false]
  rcases stat_of_none names free h with hstat | hstat <;> simp only [hstat]

theorem resolveFrom_plain (t : FileTree) (opened : List Location) (place : Location)
    (parts : List String) (names : ∀ c ∈ parts, IsName c)
    (free : ∀ r, r <+: parts → ∀ target, t.entryAt? (place ++ r) ≠ some (.link target)) :
    t.resolveFrom opened place parts = (place ++ parts, true) := by
  induction parts generalizing place with
  | nil => simp [resolveFrom]
  | cons c rest ih =>
      obtain ⟨hempty, hdot, hdots, -⟩ := (names c (by simp)).component
      have next := ih (place ++ [c]) (fun n hn => names n (List.mem_cons_of_mem c hn))
        (fun r hr target => by
          simpa using free (c :: r) (List.cons_prefix_cons.mpr ⟨rfl, hr⟩) target)
      rw [resolveFrom]
      simp only [hempty, hdot, or_self, if_false, hdots]
      split
      · rename_i target hlink
        exact absurd hlink (free [c] (by simp) target)
      · simpa using next

theorem resolve_eq {t : FileTree} {l : Location} (names : ∀ c ∈ l, IsName c)
    (free : t.LinkFree l) : t.resolve l = .ok l := by
  have real := t.resolveFrom_plain [] [] l names (fun r hr => free r hr)
  have step := t.locate_plain true linkLimit [] l names rfl (fun r hr _ => free r hr)
  simp only [List.nil_append] at real
  simp only [resolve, noNul_of_names names, Bool.false_eq_true, if_false, real, follow]
  generalize t.locate true linkLimit [] l = answer at step ⊢
  cases step <;> rfl

theorem WellFormed.resolve_directory {t : FileTree} (wf : t.WellFormed) {l : Location}
    (h : t.entryAt? l = some .directory) : t.resolve l = .ok l :=
  resolve_eq (wf.named l _ h) (wf.linkFree h (by simp))

/-- A path goes on from where its first names lead. -/
theorem locate_firm (t : FileTree) (last : Bool) (links : Nat) (place : Location)
    (parts rest : List String) (names : ∀ c ∈ parts, IsName c)
    (firm : ∀ r, r <+: parts → t.entryAt? (place ++ r) = some .directory) :
    t.locate last links place (parts ++ rest) = t.locate last links (place ++ parts) rest := by
  induction parts generalizing place with
  | nil => simp
  | cons c parts ih =>
      have here : t.entryAt? place = some .directory := by simpa using firm [] List.nil_prefix
      have next : t.entryAt? (place ++ [c]) = some .directory := firm [c] (by simp)
      have others := ih (place ++ [c]) (fun d hd => names d (List.mem_cons_of_mem c hd))
        fun r hr => by simpa using firm (c :: r) (List.cons_prefix_cons.mpr ⟨rfl, hr⟩)
      rw [List.cons_append, locate_name (names c List.mem_cons_self) here (by simp [next])]
      split
      · rename_i nothing
        rw [(List.append_eq_nil_iff.mp nothing).1, (List.append_eq_nil_iff.mp nothing).2, locate]
      · rw [if_neg (by simp [next]), others]
        simp

/-- A name in a directory that is too long. -/
theorem WellFormed.locate_long {t : FileTree} (wf : t.WellFormed) {directory : Location}
    (there : t.entryAt? directory = some .directory) {c : String} (component : IsComponent c)
    (long : nameLimit < c.utf8ByteSize) (last : Bool) (links : Nat) :
    t.locate last links [] (directory ++ [c]) = .error .nameTooLong := by
  have inside : t.isDirectoryAt directory = true := (t.isDirectoryAt_eq_true directory).mpr there
  obtain ⟨empty, dot, dots, -⟩ := component
  rw [t.locate_firm last links [] directory [c] (wf.named _ _ there) fun r hr => ?_]
  · simp [locate, inside, empty, dot, dots, long]
  · by_cases itself : r = directory
    · rw [itself, List.nil_append, there]
    · exact wf.directory_of_prefix there hr itself

end FileTree

end Conveyor
