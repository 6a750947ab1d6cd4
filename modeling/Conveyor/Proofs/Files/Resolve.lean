import Conveyor.Proofs.Effect
import Conveyor.Proofs.Files.Tree

/-!
Real places of paths, told from the links of a tree alone. A real place holds no empty component and
no dots; where no link stands at it or above it, looking it up meets no loop.
-/

namespace Conveyor

/-- A component that is neither empty nor made of dots. -/
def IsPlain (c : String) : Prop := ¬ (c = "" ∨ c = ".") ∧ c ≠ ".."

theorem IsComponent.plain {c : String} (h : IsComponent c) : IsPlain c :=
  ⟨fun still => still.elim h.1 h.2.1, h.2.2.1⟩

namespace FileTree

/-- Two trees have the same links. -/
def SameLinks (t t' : FileTree) : Prop :=
  ∀ l target, t.entryAt? l = some (.link target) ↔ t'.entryAt? l = some (.link target)

theorem SameLinks.linkFree_iff {t t' : FileTree} (same : t.SameLinks t') (l : Location) :
    t.LinkFree l ↔ t'.LinkFree l := by
  unfold LinkFree
  simp only [Ne, same _ _]

section Steps

variable (t : FileTree) (opened : List Location) (place : Location) {c : String} (rest : List String)

theorem resolveFrom_link {target : String} (plain : IsPlain c)
    (link : t.entryAt? (place ++ [c]) = some (.link target)) :
    t.resolveFrom opened place (c :: rest) =
      if opened.contains (place ++ [c]) then (foldDots (place ++ [c]) rest, false)
      else
        let followed := t.resolveFrom ((place ++ [c]) :: opened) (linkStart place target)
          (pathParts target)
        if followed.2 then t.resolveFrom opened followed.1 rest
        else (foldDots followed.1 rest, false) := by
  rw [resolveFrom, if_neg plain.1, if_neg plain.2]
  dsimp only
  split
  · rename_i other hother
    rw [link] at hother
    cases hother
    split
    · rfl
    · obtain ⟨real, whole⟩ :=
        t.resolveFrom ((place ++ [c]) :: opened) (linkStart place target) (pathParts target)
      cases whole <;> rfl
  · rename_i none
    exact absurd link (none target)

theorem resolveFrom_step (plain : IsPlain c)
    (notLink : ∀ target, t.entryAt? (place ++ [c]) ≠ some (.link target)) :
    t.resolveFrom opened place (c :: rest) = t.resolveFrom opened (place ++ [c]) rest := by
  rw [resolveFrom, if_neg plain.1, if_neg plain.2]
  dsimp only
  split
  · rename_i target link
    exact absurd link (notLink target)
  · rfl

end Steps

theorem resolveFrom_congr {t t' : FileTree} (same : t.SameLinks t') (opened : List Location)
    (place : Location) (parts : List String) :
    t.resolveFrom opened place parts = t'.resolveFrom opened place parts := by
  fun_induction t.resolveFrom opened place parts with
  | case1 opened place => simp [resolveFrom]
  | case2 opened place c rest h ih => rw [resolveFrom, if_pos h, ih]
  | case3 opened place rest h ih =>
      rw [resolveFrom, if_neg h, if_pos rfl, ih]
  | case4 opened place c rest h hdots here target link looped =>
      rw [t'.resolveFrom_link opened place rest ⟨h, hdots⟩
        ((same _ _).mp link), if_pos looped]
  | case5 opened place c rest h hdots here target link new real hreal ih ih' =>
      rw [t'.resolveFrom_link opened place rest ⟨h, hdots⟩
        ((same _ _).mp link), if_neg new, ← ih, hreal]
      exact ih'
  | case6 opened place c rest h hdots here target link new real hreal ih =>
      rw [t'.resolveFrom_link opened place rest ⟨h, hdots⟩
        ((same _ _).mp link), if_neg new, ← ih, hreal]
      rfl
  | case7 opened place c rest h hdots here notLink ih =>
      rw [t'.resolveFrom_step opened place rest ⟨h, hdots⟩
        fun target link => notLink target ((same _ _).mpr link)]
      exact ih

theorem isPlain_append {place : Location} {c : String} (plain : ∀ d ∈ place, IsPlain d)
    (hc : IsPlain c) : ∀ d ∈ place ++ [c], IsPlain d :=
  List.forall_mem_append.mpr ⟨plain, List.forall_mem_singleton.mpr hc⟩

theorem isPlain_foldDots {place : Location} (parts : List String)
    (plain : ∀ c ∈ place, IsPlain c) : ∀ c ∈ foldDots place parts, IsPlain c := by
  induction parts generalizing place with
  | nil => exact plain
  | cons c rest ih =>
      rw [foldDots]
      split
      · exact ih fun d hd => plain d (List.mem_of_mem_dropLast hd)
      · split
        · exact ih plain
        · rename_i hdots h
          exact ih (isPlain_append plain ⟨h, hdots⟩)

/-- A real place holds plain components only. -/
theorem isPlain_resolveFrom (t : FileTree) (opened : List Location) {place : Location}
    (parts : List String) (plain : ∀ c ∈ place, IsPlain c) :
    ∀ c ∈ (t.resolveFrom opened place parts).1, IsPlain c := by
  have started : ∀ {place : Location} (target : String), (∀ d ∈ place, IsPlain d) →
      ∀ d ∈ linkStart place target, IsPlain d := by
    intro place target plain d hd
    unfold linkStart at hd
    split at hd
    · cases hd
    · exact plain d hd
  fun_induction t.resolveFrom opened place parts with
  | case1 opened place => exact plain
  | case2 opened place c rest h ih => exact ih plain
  | case3 opened place rest h ih => exact ih fun d hd => plain d (List.mem_of_mem_dropLast hd)
  | case4 opened place c rest h hdots here target link looped =>
      exact isPlain_foldDots rest (isPlain_append plain ⟨h, hdots⟩)
  | case5 opened place c rest h hdots here target link new real hreal ih ih' =>
      rw [hreal] at ih
      exact ih' (ih (started target plain))
  | case6 opened place c rest h hdots here target link new real hreal ih =>
      rw [hreal] at ih
      exact isPlain_foldDots rest (ih (started target plain))
  | case7 opened place c rest h hdots here notLink ih => exact ih (isPlain_append plain ⟨h, hdots⟩)

/-- Looking up plain components that no link interrupts ends where they lead, or fails, but not for a
loop. -/
theorem locate_linkFree (t : FileTree) (last : Bool) (links : Nat) (place : Location)
    (parts : List String) (plain : ∀ c ∈ parts, IsPlain c)
    (free : ∀ r, r <+: parts → ∀ target, t.entryAt? (place ++ r) ≠ some (.link target)) :
    t.locate last links place parts = .ok (place ++ parts) ∨
      ∃ r, t.locate last links place parts = .error r ∧ r ≠ .linkLoop := by
  induction parts generalizing place with
  | nil => exact .inl (by simp [locate])
  | cons c rest ih =>
      obtain ⟨hdot, hdots⟩ := plain c (by simp)
      rw [locate]
      split
      · exact .inr ⟨_, rfl, by simp⟩
      · split
        · exact .inr ⟨_, rfl, by simp⟩
        · have next := ih (place ++ [c]) (fun d hd => plain d (List.mem_cons_of_mem c hd))
            (fun r hr target => by
              simpa using free (c :: r) (List.cons_prefix_cons.mpr ⟨rfl, hr⟩) target)
          dsimp only
          split
          · split
            · rename_i hrest
              exact .inl (by rw [List.isEmpty_iff.mp hrest])
            · exact .inr ⟨_, rfl, by simp⟩
          · rename_i target link
            exact absurd link (free [c] (by simp) target)
          · simpa using next

/-- Plain components that no link interrupts lead to their own place. -/
theorem follow_of_linkFree {t : FileTree} {l real : Location} (plain : ∀ c ∈ l, IsPlain c)
    (free : t.LinkFree l) (h : t.follow l = .ok real) : real = l := by
  rcases t.locate_linkFree true linkLimit [] l plain (fun r hr => free r hr) with ended | ⟨r, failed, -⟩
  · exact Except.ok.inj (h.symm.trans ended)
  · cases h.symm.trans failed

/-- The real place of a path where no link stands at it or above it. -/
theorem resolve_of_linkFree {t : FileTree} {l real : Location}
    (hreal : (t.resolveFrom [] [] l).1 = real) (free : t.LinkFree real) :
    t.resolve l = if l.any fun c => c.toList.contains '\x00' then .error .nulInPath else .ok real := by
  have plain : ∀ c ∈ real, IsPlain c := hreal ▸ t.isPlain_resolveFrom [] l (by simp)
  have step := t.locate_linkFree true linkLimit [] real plain (fun r hr => free r hr)
  rw [resolve, hreal]
  split
  · rfl
  · rcases step with hok | ⟨r, herr, hr⟩
    · simp only [follow, hok]
    · simp only [follow, herr]
      cases r <;> first | rfl | exact absurd rfl hr

theorem resolve_ok {t : FileTree} {l real : Location} (h : t.resolve l = .ok real) :
    (t.resolveFrom [] [] l).1 = real ∧ (l.any fun c => c.toList.contains '\x00') = false := by
  unfold resolve at h
  split at h
  · cases h
  · rename_i hnul
    dsimp only at h
    split at h
    · cases h
    · cases h
      exact ⟨rfl, by simpa using hnul⟩

/-- Trees with the same links agree on real places without links. -/
theorem SameLinks.resolve_iff {t t' : FileTree} (same : t.SameLinks t') {l real : Location}
    (free : t.LinkFree real) : t.resolve l = .ok real ↔ t'.resolve l = .ok real := by
  constructor
  · intro h
    obtain ⟨hreal, hnul⟩ := resolve_ok h
    rw [resolveFrom_congr same] at hreal
    rw [resolve_of_linkFree hreal ((same.linkFree_iff real).mp free), hnul]
    rfl
  · intro h
    obtain ⟨hreal, hnul⟩ := resolve_ok h
    rw [← resolveFrom_congr same] at hreal
    rw [resolve_of_linkFree hreal free, hnul]
    rfl

/-- What stands at a place is what a path of plain components without links leads to. -/
theorem stat_of_linkFree {t : FileTree} {l : Location} {e : Entry} (plain : ∀ c ∈ l, IsPlain c)
    (free : t.LinkFree l) (h : t.stat l = .ok e) : t.entryAt? l = some e := by
  unfold stat at h
  obtain ⟨place, hplace, h⟩ := ok_of_bind_ok h
  rw [follow_of_linkFree plain free hplace] at h
  split at h
  · rename_i hentry
    cases h
    exact hentry
  · cases h

end FileTree

end Conveyor
