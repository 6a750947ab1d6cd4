import Conveyor.Table
import Mathlib.Data.List.Nodup

/-!
Tables as maps: which keys they hold, and what is left of entries that are put one after the other.
-/

namespace Conveyor.Table

variable {κ : Type u} {α : Type v} [BEq κ] [LawfulBEq κ]

theorem mem_keys_iff (t : Table κ α) (key : κ) : key ∈ t.keys ↔ ∃ a, t.get? key = some a := by
  induction t with
  | nil => simp [keys, get?]
  | cons e rest ih =>
      obtain ⟨k, b⟩ := e
      by_cases h : k = key
      · simp [keys, get?, h]
      · have ih' : key ∈ rest.map (·.1) ↔ ∃ a, get? rest key = some a := ih
        simp [keys, get?, h, Ne.symm h, ih']

theorem get?_eq_some_of_mem {t : Table κ α} (nodup : t.keys.Nodup) {key : κ} {a : α}
    (h : (key, a) ∈ t) : t.get? key = some a := by
  induction t with
  | nil => cases h
  | cons e rest ih =>
      obtain ⟨k, b⟩ := e
      simp only [keys, List.map_cons, List.nodup_cons] at nodup
      rcases List.mem_cons.mp h with heq | hmem
      · cases heq
        simp [get?]
      · have hne : k ≠ key := by
          rintro rfl
          exact nodup.1 (List.mem_map.mpr ⟨_, hmem, rfl⟩)
        simpa [get?, hne] using ih nodup.2 hmem

theorem mem_of_get?_eq_some {t : Table κ α} {key : κ} {a : α} (h : t.get? key = some a) :
    (key, a) ∈ t := by
  induction t with
  | nil => cases h
  | cons e rest ih =>
      obtain ⟨k, b⟩ := e
      by_cases hk : k = key
      · simp only [get?, hk, beq_self_eq_true, if_true, Option.some.injEq] at h
        simp [hk, h]
      · simp only [get?, beq_iff_eq, hk, if_false] at h
        exact List.mem_cons_of_mem _ (ih h)

theorem get?_filter (t : Table κ α) (keep : κ → Bool) (key : κ) :
    get? (t.filter fun e => keep e.1) key = if keep key then t.get? key else none := by
  induction t with
  | nil => simp [get?]
  | cons e rest ih =>
      obtain ⟨k, b⟩ := e
      by_cases hk : k = key
      · subst hk
        cases h : keep k <;> simp_all [get?]
      · cases h : keep k <;> simp_all [get?]

theorem keys_put (t : Table κ α) (key : κ) (a : α) :
    (t.put key a).keys = if key ∈ t.keys then t.keys else t.keys ++ [key] := by
  induction t with
  | nil => simp [put, keys]
  | cons e rest ih =>
      obtain ⟨k, b⟩ := e
      by_cases hk : k = key
      · simp [put, keys, hk]
      · have ih' : (put rest key a).map (·.1) = if key ∈ rest.map (·.1) then rest.map (·.1)
            else rest.map (·.1) ++ [key] := ih
        simp only [put, keys, beq_iff_eq, hk, if_false, List.map_cons, ih', List.mem_cons,
          Ne.symm hk, false_or]
        split <;> simp

theorem nodup_keys_put {t : Table κ α} (nodup : t.keys.Nodup) (key : κ) (a : α) :
    (t.put key a).keys.Nodup := by
  rw [keys_put]
  split
  · exact nodup
  · rename_i h
    exact List.nodup_append.mpr ⟨nodup, by simp, by simpa using fun k hk => (ne_of_mem_of_not_mem hk h)⟩

theorem nodup_keys_putAll {t : Table κ α} (nodup : t.keys.Nodup) (entries : List (κ × α)) :
    (t.putAll entries).keys.Nodup := by
  induction entries generalizing t with
  | nil => exact nodup
  | cons e rest ih => exact ih (nodup_keys_put nodup e.1 e.2)

theorem nodup_keys_ofEntries (entries : List (κ × α)) : (ofEntries entries).keys.Nodup :=
  nodup_keys_putAll (by simp [keys]) entries

/-- Entries that agree wherever they have a common key are all kept. -/
theorem get?_putAll (t : Table κ α) (entries : List (κ × α))
    (agree : ∀ e ∈ entries, ∀ f ∈ entries, e.1 = f.1 → e.2 = f.2) (key : κ) (a : α) :
    (t.putAll entries).get? key = some a ↔
      (key, a) ∈ entries ∨ (key ∉ entries.map (·.1) ∧ t.get? key = some a) := by
  induction entries generalizing t with
  | nil => simp [putAll]
  | cons e rest ih =>
      obtain ⟨k, b⟩ := e
      have step := ih (t.put k b) (fun e he f hf => agree e (List.mem_cons_of_mem _ he) f
        (List.mem_cons_of_mem _ hf))
      have unfolded : t.putAll ((k, b) :: rest) = (t.put k b).putAll rest := rfl
      rw [unfolded, step, get?_put]
      by_cases hk : k = key
      · subst hk
        have same : ∀ c, (k, c) ∈ rest → b = c := fun c hc =>
          agree (k, b) (by simp) (k, c) (List.mem_cons_of_mem _ hc) rfl
        by_cases hrest : k ∈ rest.map (·.1)
        · obtain ⟨⟨k', c⟩, hc, rfl⟩ := List.mem_map.mp hrest
          have hbc := same c hc
          subst hbc
          simp only [hrest, not_true, false_and, or_false, List.map_cons, List.mem_cons, true_or,
            Prod.mk.injEq, true_and]
          exact ⟨.inr, fun h => h.elim (fun h => h ▸ hc) id⟩
        · have absent : ∀ c, (k, c) ∉ rest := fun c hc => hrest (List.mem_map.mpr ⟨_, hc, rfl⟩)
          simp [absent, hrest, eq_comm]
      · simp [hk, Ne.symm hk]

omit [LawfulBEq κ] in
theorem putAll_append (t : Table κ α) (first second : List (κ × α)) :
    t.putAll (first ++ second) = (t.putAll first).putAll second :=
  List.foldl_append

/-- Entries of different keys are all kept. -/
theorem get?_putAll_of_mem {entries : List (κ × α)} (nodup : (entries.map (·.1)).Nodup) {key : κ}
    {a : α} (h : (key, a) ∈ entries) (t : Table κ α) : (t.putAll entries).get? key = some a := by
  refine (get?_putAll t entries (fun e he f hf hkey => ?_) key a).mpr (.inl h)
  rw [List.inj_on_of_nodup_map nodup he hf hkey]

/-- Entries of other keys do not matter. -/
theorem get?_putAll_of_notMem {entries : List (κ × α)} {key : κ} (absent : key ∉ entries.map (·.1))
    (t : Table κ α) : (t.putAll entries).get? key = t.get? key := by
  induction entries generalizing t with
  | nil => rfl
  | cons e rest ih =>
      rw [List.map_cons, List.mem_cons, not_or] at absent
      have unfolded : t.putAll (e :: rest) = (t.put e.1 e.2).putAll rest := rfl
      rw [unfolded, ih absent.2, get?_put, if_neg (by simpa using Ne.symm absent.1)]

/-- Entries of different keys are kept in whatever order they are put. -/
theorem get?_putAll_perm {entries entries' : List (κ × α)} (perm : entries.Perm entries')
    (nodup : (entries.map (·.1)).Nodup) (t : Table κ α) (key : κ) :
    (t.putAll entries).get? key = (t.putAll entries').get? key := by
  have agree : ∀ e ∈ entries, ∀ f ∈ entries, e.1 = f.1 → e.2 = f.2 := fun e he f hf hkey => by
    rw [List.inj_on_of_nodup_map nodup he hf hkey]
  have agree' : ∀ e ∈ entries', ∀ f ∈ entries', e.1 = f.1 → e.2 = f.2 := fun e he f hf =>
    agree e (perm.mem_iff.mpr he) f (perm.mem_iff.mpr hf)
  refine Option.ext fun a => ?_
  rw [get?_putAll t entries agree, get?_putAll t entries' agree', perm.mem_iff, (perm.map (·.1)).mem_iff]

theorem mem_ofEntries {entries : List (κ × α)}
    (agree : ∀ e ∈ entries, ∀ f ∈ entries, e.1 = f.1 → e.2 = f.2) (key : κ) (a : α) :
    (key, a) ∈ ofEntries entries ↔ (key, a) ∈ entries := by
  have view := get?_putAll [] entries agree key a
  simp only [get?, reduceCtorEq, and_false, or_false] at view
  constructor
  · intro h
    exact view.mp (get?_eq_some_of_mem (nodup_keys_ofEntries entries) h)
  · intro h
    exact mem_of_get?_eq_some (view.mpr h)

omit [LawfulBEq κ] in
theorem get?_append (s t : Table κ α) (key : κ) : get? (s ++ t) key = (s.get? key).or (t.get? key) := by
  induction s with
  | nil => simp [get?]
  | cons e rest ih =>
      simp only [List.cons_append, get?]
      split
      · simp
      · exact ih

omit [LawfulBEq κ] in
theorem put_append (s t : Table κ α) (key : κ) (a : α) :
    put (s ++ t) key a = if s.has key then put s key a ++ t else s ++ put t key a := by
  induction s with
  | nil => simp [has, get?]
  | cons e rest ih =>
      by_cases h : e.1 == key
      · simp [put, has, get?, h]
      · have later : put (rest ++ t) key a = if (get? rest key).isSome then put rest key a ++ t
            else rest ++ put t key a := ih
        simp only [List.cons_append, put, has, get?, h, Bool.false_eq_true, if_false, later]
        split <;> rfl

theorem put_put (t : Table κ α) (key : κ) (a b : α) : (t.put key a).put key b = t.put key b := by
  induction t with
  | nil => simp [put]
  | cons e rest ih =>
      by_cases same : e.1 = key <;> simp [put, same, ih]

/-- What drops every entry of a key gives the same when something is put there. -/
theorem filterMap_put {β : Type w} (t : Table κ α) (f : κ × α → Option β) {key : κ} (a : α)
    (drops : ∀ b, f (key, b) = none) : (t.put key a).filterMap f = t.filterMap f := by
  induction t with
  | nil => simp [put, drops]
  | cons e rest ih =>
      obtain ⟨k, b⟩ := e
      by_cases same : k = key
      · subst same
        simp [put, drops]
      · rw [put, if_neg (by simpa using same), List.filterMap_cons, List.filterMap_cons, ih]

theorem filter_put (t : Table κ α) (keep : κ → Bool) {key : κ} (a : α) (drops : keep key = false) :
    (t.put key a).filter (fun e => keep e.1) = t.filter fun e => keep e.1 := by
  rw [← List.filterMap_eq_filter, filterMap_put t _ a (by simp [Option.guard, drops])]

end Conveyor.Table
