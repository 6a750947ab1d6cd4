import Conveyor.Pipeline.Load
import Conveyor.Proofs.Value.Laws

/-!
The append markers that a merge leaves. A marker is looked at only where two mappings are merged: one in
a mapping that has no counterpart in the base is copied as it is, and of two pluses one stays.
-/

namespace Conveyor

theorem Value.mapping_of_spells {v : Value} {key : Scalar} (h : v.Spells key) :
    ∃ fields, v = .mapping fields := by
  cases v with
  | mapping fields => exact ⟨fields, rfl⟩
  | _ => exact h.elim

namespace Fields

variable {name marker : String} {base merged : Fields} {entries : List (Scalar × Value)}

/-- An entry appends to the field of a name. -/
def Appends (name : String) (entries : List (Scalar × Value)) : Prop :=
  ∃ e ∈ entries, ∃ key, e.1 = .str key ∧ appendTarget? key = some name

/-- A marker that is left when the entries are merged over the base: it is what a marker with a second
plus names; or it stands in a mapping that comes over no mapping, and to which nothing is appended
later; or it is left of the mappings that are merged at a key. -/
inductive Leaves (marker : String) : Fields → Fields → Prop
  | doubled {base override : Fields} {key : String} {v : Value} (entry : (.str key, v) ∈ override)
      (target : appendTarget? key = some marker) : Leaves marker base override
  | copied {base pre inner post : Fields} {key : String} (unmarked : appendTarget? key = none)
      (last : ¬ Appends key post)
      (alone : Appends key pre ∨ ∀ fields, base.field? key ≠ some (.mapping fields))
      (spells : Fields.Spells (.str marker) inner) :
      Leaves marker base (pre ++ (.str key, .mapping inner) :: post)
  | merged {base fields pre inner post : Fields} {key : String} (unmarked : appendTarget? key = none)
      (first : ¬ Appends key pre) (last : ¬ Appends key post)
      (counterpart : base.field? key = some (.mapping fields)) (inside : Leaves marker fields inner) :
      Leaves marker base (pre ++ (.str key, .mapping inner) :: post)

theorem appends_cons {e : Scalar × Value} : Appends name (e :: entries) ↔
    (∃ key, e.1 = .str key ∧ appendTarget? key = some name) ∨ Appends name entries := by
  simp [Appends]

/-- What an entry that does not give the field itself makes of it. -/
theorem onField_kept {e : Scalar × Value} (kept : appendTarget? name = none → e.1 ≠ .str name)
    (current : Option Value) : ∃ next, onField name current e = .ok next ∧
      ((∃ key, e.1 = .str key ∧ appendTarget? key = some name) → ∃ items, next = some (.list items)) ∧
      ((¬ ∃ key, e.1 = .str key ∧ appendTarget? key = some name) → next = current) := by
  obtain ⟨key, v⟩ := e
  cases key with
  | str key =>
      cases target : appendTarget? key with
      | none =>
          have other : key ≠ name := by
            rintro rfl
            exact kept target rfl
          exact ⟨current, by simp [onField, fieldOf, target, other], by simp [target]⟩
      | some field =>
          by_cases same : field = name
          · subst same
            refine ⟨some (.list ((current.getD .null).asList ++ v.asList)), ?_, by simp [target]⟩
            simp [onField, fieldOf, target, Value.enter, Except.map]
          · exact ⟨current, by simp [onField, fieldOf, target, same], by simp [target, same]⟩
  | _ => exact ⟨current, rfl, by simp⟩

theorem foldlM_onField_kept (kept : appendTarget? name = none → ∀ e ∈ entries, e.1 ≠ .str name)
    (current : Option Value) : ∃ last, entries.foldlM (onField name) current = .ok last ∧
      (Appends name entries → ∃ items, last = some (.list items)) ∧
      (¬ Appends name entries → last = current) := by
  induction entries generalizing current with
  | nil => exact ⟨current, rfl, by simp [Appends], fun _ => rfl⟩
  | cons e rest ih =>
      obtain ⟨next, hnext, appended, same⟩ := onField_kept
        (fun unmarked => kept unmarked e List.mem_cons_self) current
      obtain ⟨last, hlast, appendedLater, sameLater⟩ := ih
        (fun unmarked e he => kept unmarked e (List.mem_cons_of_mem _ he)) next
      refine ⟨last, by rw [List.foldlM_cons, hnext]; exact hlast, fun appends => ?_, fun spared => ?_⟩
      · by_cases later : Appends name rest
        · exact appendedLater later
        · rw [sameLater later]
          exact appended ((appends_cons.mp appends).resolve_right later)
      · rw [appends_cons, not_or] at spared
        rw [sameLater spared.2, same spared.1]

theorem isSome_foldlM_onField {current last : Option Value}
    (h : entries.foldlM (onField name) current = .ok last) :
    last.isSome ↔ current.isSome ∨ ¬ Spares name entries := by
  induction entries generalizing current with
  | nil =>
      cases h
      simp [Spares]
  | cons e rest ih =>
      rw [List.foldlM_cons] at h
      obtain ⟨next, hnext, h⟩ := ok_of_bind_ok h
      have split : Spares name (e :: rest) ↔
          (∀ key, e.1 = .str key → fieldOf key ≠ name) ∧ Spares name rest :=
        List.forall_mem_cons
      rw [ih h, split]
      obtain ⟨key, v⟩ := e
      cases key with
      | str key =>
          simp only [onField] at hnext
          split at hnext
          · rename_i here
            cases entered : Value.enter current key v with
            | error e =>
                rw [entered] at hnext
                cases hnext
            | ok w =>
                rw [entered] at hnext
                cases hnext
                simp [here]
          · rename_i other
            cases hnext
            simp [other]
      | _ =>
          cases hnext
          simp

/-- A merge writes its fields, and keeps the others. -/
theorem isSome_field?_merge (h : base.merge entries = .ok merged) (name : String) :
    (merged.field? name).isSome ↔ (base.field? name).isSome ∨ ¬ Spares name entries :=
  isSome_foldlM_onField (field?_merge h name)

theorem field?_merge_kept (h : base.merge entries = .ok merged)
    (kept : appendTarget? name = none → ∀ e ∈ entries, e.1 ≠ .str name) :
    (∃ items, merged.field? name = some (.list items)) ∨ merged.field? name = base.field? name := by
  obtain ⟨last, hlast, appended, same⟩ := foldlM_onField_kept kept (base.field? name)
  obtain rfl := Except.ok.inj (hlast.symm.trans (field?_merge h name))
  by_cases appends : Appends name entries
  · exact .inl (appended appends)
  · exact .inr (same appends)

/-- What becomes of the field that an entry gives: what is appended before makes a list of what the
value comes over, and what is appended later a list of it all. -/
theorem field?_merge_given {pre post : List (Scalar × Value)} {v : Value}
    (nodup : (Table.keys (pre ++ (.str name, v) :: post)).Nodup) (unmarked : appendTarget? name = none)
    (h : base.merge (pre ++ (.str name, v) :: post) = .ok merged) : ∃ current,
      (Appends name pre → ∃ items, current = some (.list items)) ∧
      (¬ Appends name pre → current = base.field? name) ∧
      (Appends name post → ∃ items, merged.field? name = some (.list items)) ∧
      (¬ Appends name post → Value.overlay current (some v) = .ok (merged.field? name)) := by
  rw [Table.keys, List.map_append, List.map_cons, List.nodup_append, List.nodup_cons] at nodup
  obtain ⟨-, ⟨fresh, -⟩, apart⟩ := nodup
  have view := field?_merge h name
  rw [List.foldlM_append] at view
  obtain ⟨current, first, view⟩ := ok_of_bind_ok view
  rw [List.foldlM_cons] at view
  obtain ⟨next, entered, last⟩ := ok_of_bind_ok view
  have before : ∀ e ∈ pre, e.1 ≠ .str name := fun e he =>
    apart _ (List.mem_map_of_mem he) _ List.mem_cons_self
  have after : ∀ e ∈ post, e.1 ≠ .str name := fun e he text => fresh (List.mem_map.mpr ⟨e, he, text⟩)
  obtain ⟨_, hcurrent, appended, same⟩ := foldlM_onField_kept (fun _ => before) (base.field? name)
  obtain ⟨_, hmerged, appendedLater, sameLater⟩ := foldlM_onField_kept (fun _ => after) next
  cases first.symm.trans hcurrent
  cases last.symm.trans hmerged
  refine ⟨current, appended, same, appendedLater, fun spared => ?_⟩
  rw [sameLater spared, ← entered]
  simp [onField, fieldOf, unmarked, Value.enter, Value.overlay]

theorem nodup_keys_merge (nodup : (Table.keys base).Nodup) (h : base.merge entries = .ok merged) :
    (Table.keys merged).Nodup := by
  rw [merge_eq_foldlM] at h
  refine foldlM_ok (P := fun fields => (Table.keys fields).Nodup)
    (fun e fields next hnext nodup => ?_) h nodup
  obtain ⟨key, v, w, -, rfl⟩ := eq_put_of_enter hnext
  exact nodup_keys_put nodup _ w

/-- An entry of what is merged is in the base or has a text for its key. -/
theorem mem_merge (h : base.merge entries = .ok merged) :
    ∀ e ∈ merged, e ∈ base ∨ ∃ name, e.1 = .str name := by
  rw [merge_eq_foldlM] at h
  refine foldlM_ok (P := fun fields : Fields => ∀ e ∈ fields, e ∈ base ∨ ∃ name, e.1 = .str name)
    (fun e fields next hnext held => ?_) h fun _ => .inl
  obtain ⟨key, v, w, -, rfl⟩ := eq_put_of_enter hnext
  intro e he
  rcases mem_put he with rfl | there
  · exact .inr ⟨_, rfl⟩
  · exact held e there

/-- What overrides can be merged over any base if its keys are texts. -/
theorem merge_ok (texts : HasTextKeys entries) (base : Fields) :
    ∃ merged, base.merge entries = .ok merged := by
  have ends := merge_ends base entries
  cases hmerge : merge base entries with
  | ok merged => exact ⟨merged, rfl⟩
  | error e =>
      rw [hmerge] at ends
      obtain _ | ⟨notText, h⟩ := ends
      obtain ⟨name, rfl⟩ := (hasTextKeys_iff_spells _).mp texts _ h
      exact absurd rfl (notText name)

theorem spells_of_leaves {override : Fields} (leaves : Leaves marker base override) :
    ∀ {merged : Fields}, HasTextKeys override → HasDistinctKeys override →
      base.merge override = .ok merged → Fields.Spells (.str marker) merged := by
  induction leaves with
  | @doubled base override key v entry target =>
      intro merged _ _ h
      have written : (merged.field? marker).isSome := by
        refine (isSome_field?_merge h marker).mpr (.inr fun spares => ?_)
        exact spares _ entry key rfl (by simp [fieldOf, target])
      obtain ⟨v, hv⟩ := Option.isSome_iff_exists.mp written
      exact (spells_iff _ _).mpr ⟨_, mem_of_field? hv, .inl rfl⟩
  | @copied base pre inner post key unmarked last alone spells =>
      intro merged _ distinct h
      obtain ⟨current, appended, same, -, given⟩ := field?_merge_given
        ((hasDistinctKeys_iff _).mp distinct).1 unmarked h
      have noMapping : ∀ fields, current ≠ some (.mapping fields) := by
        intro fields held
        by_cases appends : Appends key pre
        · obtain ⟨items, list⟩ := appended appends
          simp [list] at held
        · rw [same appends] at held
          exact alone.elim appends (· fields held)
      have held := given last
      rw [Value.overlay_some fun fields _ there => absurd there (noMapping fields)] at held
      exact .of_field? (Except.ok.inj held).symm spells
  | @merged base fields pre inner post key unmarked first last counterpart inside ih =>
      intro merged texts distinct h
      obtain ⟨current, -, same, -, given⟩ := field?_merge_given
        ((hasDistinctKeys_iff _).mp distinct).1 unmarked h
      have held := given last
      rw [same first, counterpart] at held
      obtain ⟨m, hm, there⟩ := Value.overlay_mapping_ok held
      have entry : (Scalar.str key, Value.mapping inner) ∈
          pre ++ (.str key, .mapping inner) :: post := by simp
      exact .of_field? there (ih ((hasTextKeys_iff _).mp texts _ entry).2
        (((hasDistinctKeys_iff _).mp distinct).2 _ entry) hm)

theorem leaves_of_key {override : Fields} (isMarker : (appendTarget? marker).isSome)
    (notBase : ¬ Fields.Spells (.str marker) base) (h : base.merge override = .ok merged)
    (key : Scalar.str marker ∈ Table.keys merged) : Leaves marker base override := by
  have there : (merged.field? marker).isSome := (has_iff merged marker).mpr key
  rcases (isSome_field?_merge h marker).mp there with held | written
  · obtain ⟨v, hv⟩ := Option.isSome_iff_exists.mp held
    exact absurd ((spells_iff _ _).mpr ⟨_, mem_of_field? hv, .inl rfl⟩) notBase
  · simp only [Spares, not_forall, not_not] at written
    obtain ⟨⟨_, v⟩, entry, key, rfl, field⟩ := written
    cases target : appendTarget? key with
    | none =>
        obtain rfl : key = marker := by simpa [fieldOf, target] using field
        simp [target] at isMarker
    | some name =>
        obtain rfl : name = marker := by simpa [fieldOf, target] using field
        exact .doubled entry target

/-- Where an entry gives the field, the mapping that holds a marker is its own or merged with it. -/
theorem leaves_of_given {pre post fields : Fields} {v : Value} (unmarked : appendTarget? name = none)
    (nodup : (Table.keys (pre ++ (.str name, v) :: post)).Nodup)
    (h : base.merge (pre ++ (.str name, v) :: post) = .ok merged)
    (holds : merged.field? name = some (.mapping fields)) (spells : Fields.Spells (.str marker) fields)
    (below : ∀ x y m : Fields, base.field? name = some (.mapping x) → v = .mapping y → x.merge y = .ok m →
      Fields.Spells (.str marker) m → Leaves marker x y) :
    Leaves marker base (pre ++ (.str name, v) :: post) := by
  obtain ⟨current, appended, same, appendedLater, onTop⟩ := field?_merge_given nodup unmarked h
  have last : ¬ Appends name post := by
    intro appends
    obtain ⟨items, list⟩ := appendedLater appends
    simp [holds] at list
  have onTop := onTop last
  rw [holds] at onTop
  by_cases both : ∃ x y, current = some (.mapping x) ∧ v = .mapping y
  · obtain ⟨x, y, rfl, rfl⟩ := both
    have first : ¬ Appends name pre := by
      intro appends
      obtain ⟨items, list⟩ := appended appends
      cases list
    obtain ⟨m, hm, there⟩ := Value.overlay_mapping_ok onTop
    cases there
    have counterpart := (same first).symm
    exact .merged unmarked first last counterpart (below x y fields counterpart rfl hm spells)
  · rw [Value.overlay_some fun x y hx hy => both ⟨x, y, hx, hy⟩] at onTop
    cases onTop
    refine .copied unmarked last ?_ spells
    by_cases first : Appends name pre
    · exact .inl first
    · exact .inr fun x there => both ⟨x, fields, (same first).trans there, rfl⟩

theorem leaves_of_spells (isMarker : (appendTarget? marker).isSome) (override : Fields) :
    ∀ {base merged : Fields}, base.Unmarked → HasDistinctKeys base → HasDistinctKeys override →
      base.merge override = .ok merged → Fields.Spells (.str marker) merged →
        Leaves marker base override := by
  induction override using byField with
  | step override ih =>
      intro base merged unmarked distinctBase distinct h spells
      have notBase : ¬ Fields.Spells (.str marker) base := by
        intro there
        simp [unmarked marker there] at isMarker
      obtain ⟨⟨key, w⟩, he, rfl | inside⟩ := (spells_iff _ _).mp spells
      · exact leaves_of_key isMarker notBase h (List.mem_map.mpr ⟨_, he, rfl⟩)
      · obtain ⟨fields, rfl⟩ := Value.mapping_of_spells inside
        obtain ⟨nodupBase, distinctBelow⟩ := (hasDistinctKeys_iff _).mp distinctBase
        obtain ⟨nodup, distinctInside⟩ := (hasDistinctKeys_iff _).mp distinct
        rcases mem_merge h _ he with inBase | ⟨name, rfl⟩
        · exact absurd ((spells_iff _ _).mpr ⟨_, inBase, .inr inside⟩) notBase
        have holds := field?_of_mem (nodup_keys_merge nodupBase h) he
        by_cases given : appendTarget? name = none ∧ ∃ v, (Scalar.str name, v) ∈ override
        · obtain ⟨plain, v, entry⟩ := given
          obtain ⟨pre, post, rfl⟩ := List.append_of_mem entry
          refine leaves_of_given plain nodup h holds inside fun x y m hx hy hm there => ?_
          subst hy
          exact ih name y (field?_of_mem nodup entry)
            (fun other found => unmarked other (.of_field? hx found))
            (distinctBelow _ (mem_of_field? hx)) (distinctInside _ entry) hm there
        · have kept : appendTarget? name = none → ∀ e ∈ override, e.1 ≠ .str name :=
            fun plain e he text => given ⟨plain, e.2, text ▸ he⟩
          rcases field?_merge_kept h kept with ⟨items, list⟩ | same
          · simp [holds] at list
          · exact absurd (.of_field? (same.symm.trans holds) inside) notBase

/-- A cache that appends to its paths, with a key of its own. -/
def sampleOverride : Fields :=
  [(.str "cache", .mapping [(.str "key", .str "k"), (.str "paths+", .list [.str "p"])])]

end Fields

end Conveyor
