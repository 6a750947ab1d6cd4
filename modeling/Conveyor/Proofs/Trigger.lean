import Conveyor.Proofs.Text.Lowercase
import Conveyor.Trigger
import Mathlib.Algebra.Order.BigOperators.Group.List
import Mathlib.Algebra.Order.Group.Nat

/-!
Canonical kinds. Every spelling of a kind has one canonical form, and that form is its own.
-/

namespace Conveyor

open Conveyor.Text

namespace Kind

/-- Dashes count as underscores. -/
def joined (c : Char) : Char := if c = '-' then '_' else c

theorem isBlank_joined {c : Char} (h : isBlank c = false) : isBlank (joined c) = false := by
  rw [joined]
  split
  · decide
  · exact h

theorem isSmall_joined {c : Char} (h : IsSmall c) : IsSmall (joined c) := by
  rw [joined]
  split
  · exact isSmall_of_ascii (by decide) (by decide)
  · exact h

theorem joined_joined (c : Char) : joined (joined c) = joined c := by
  by_cases h : c = '-' <;> simp [joined, h]

theorem toList_spelling (kind : String) :
    (spelling kind).toList = (lowerFrom [] (trimChars kind.toList)).map joined := by
  rw [spelling, String.toList_map, lowercase, trim, String.toList_ofList, String.toList_ofList]
  rfl

/-- A spelling has no white space at its ends, only small letters, and no dashes. -/
theorem spelling_spelling (kind : String) : spelling (spelling kind) = spelling kind := by
  have trimmed := ((isTrimmed_trimChars kind.toList).lowerFrom []).map fun _ => isBlank_joined
  have small : ∀ c ∈ (lowerFrom [] (trimChars kind.toList)).map joined, IsSmall c := by
    intro c hc
    obtain ⟨d, hd, rfl⟩ := List.mem_map.mp hc
    exact isSmall_joined (isSmall_lowerFrom [] _ d hd)
  apply String.toList_injective
  rw [toList_spelling, toList_spelling, trimmed.trimChars_eq, lowerFrom_of_small small, List.map_map]
  exact List.map_congr_left fun c _ => joined_joined c

theorem canonical_alias : ∀ e ∈ aliases, canonical e.2 = e.2 := by decide +kernel

@[simp]
theorem canonical_canonical (kind : String) : canonical (canonical kind) = canonical kind := by
  match h : aliases.lookup (spelling kind) with
  | none =>
      have own : canonical kind = spelling kind := by rw [canonical, h, Option.getD_none]
      rw [own, canonical, spelling_spelling, h, Option.getD_none]
  | some name =>
      have other : canonical kind = name := by rw [canonical, h, Option.getD_some]
      obtain ⟨before, after, split, -⟩ := List.lookup_eq_some_iff.mp h
      rw [other]
      exact canonical_alias (spelling kind, name) (split ▸ by simp)

/-- An exported kind has the canonical form of the kind. -/
@[simp]
theorem canonical_exported (kind : String) : canonical (exported kind) = canonical kind := by
  rw [exported]
  split
  · rename_i merge
    rw [merge]
    decide +kernel
  · exact canonical_canonical kind

/-- A row of zeros: there are arbitrarily long ones, and each is its own canonical form. -/
def zeros (n : Nat) : String := String.ofList (List.replicate n '0')

theorem canonical_zeros (n : Nat) : canonical (zeros n) = zeros n := by
  have digit : ∀ c ∈ List.replicate n '0', c = '0' := fun c => List.eq_of_mem_replicate
  have small : ∀ c ∈ List.replicate n '0', IsSmall c := fun c hc =>
    digit c hc ▸ isSmall_of_ascii (by decide) (by decide)
  have trimmed : IsTrimmed (List.replicate n '0') :=
    ⟨fun c hc => digit c (List.mem_of_head? hc) ▸ by decide,
      fun c hc => digit c (List.mem_of_getLast? hc) ▸ by decide⟩
  have spelled : spelling (zeros n) = zeros n := by
    apply String.toList_injective
    rw [toList_spelling, zeros, String.toList_ofList, trimmed.trimChars_eq, lowerFrom_of_small small]
    simp [joined]
  have unlisted : aliases.lookup (zeros n) = none := by
    have other : ∀ e ∈ aliases, e.1.toList.any (· != '0') = true := by decide
    rw [List.lookup_eq_none_iff]
    intro e he
    obtain ⟨c, hc, hne⟩ := List.any_eq_true.mp (other e he)
    rw [bne_iff_ne]
    intro same
    rw [← same, zeros, String.toList_ofList] at hc
    exact bne_iff_ne.mp hne (digit c hc)
  rw [canonical, spelled, unlisted, Option.getD_none]

/-- No finite list has every canonical kind. -/
theorem exists_canonical_notMem (kinds : List String) :
    ∃ kind, canonical kind = kind ∧ kind ∉ kinds := by
  refine ⟨_, canonical_zeros ((kinds.map String.length).sum + 1), fun h => ?_⟩
  have shorter := List.le_sum_of_mem (List.mem_map.mpr ⟨_, h, rfl⟩ : _ ∈ kinds.map String.length)
  rw [zeros, String.length_ofList, List.length_replicate] at shorter
  omega

end Kind

end Conveyor
