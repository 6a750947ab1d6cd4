import Conveyor.Value.Merge

/-!
The keys that a mapping spells, down through the mappings that it holds. Merging adds no key that is
no text, and fails only at such a key of the overriding mapping.
-/

namespace Conveyor

mutual

/-- Every key is a text, in the value and in the mappings under it; lists are not looked into. -/
def Value.HasTextKeys : Value → Prop
  | .mapping entries => Fields.HasTextKeys entries
  | _ => True

def Fields.HasTextKeys : List (Scalar × Value) → Prop
  | [] => True
  | (key, v) :: rest => (∃ name, key = .str name) ∧ v.HasTextKeys ∧ Fields.HasTextKeys rest

end

mutual

/-- A key of the value, or of a mapping under it; lists are not looked into. -/
def Value.Spells (key : Scalar) : Value → Prop
  | .mapping entries => Fields.Spells key entries
  | _ => False

def Fields.Spells (key : Scalar) : List (Scalar × Value) → Prop
  | [] => False
  | (k, v) :: rest => k = key ∨ v.Spells key ∨ Fields.Spells key rest

end

namespace Fields

theorem hasTextKeys_nil : HasTextKeys [] := trivial

theorem hasTextKeys_iff (fields : Fields) :
    HasTextKeys fields ↔ ∀ e ∈ fields, (∃ name, e.1 = .str name) ∧ e.2.HasTextKeys := by
  induction fields with
  | nil => simp [HasTextKeys]
  | cons e rest ih => simp [HasTextKeys, ih, and_assoc]

theorem HasTextKeys.erase {fields : Fields} (h : HasTextKeys fields) (key : Scalar) :
    HasTextKeys (Table.erase fields key) :=
  (hasTextKeys_iff _).mpr fun e he => (hasTextKeys_iff _).mp h e (List.mem_filter.mp he).1

theorem spells_iff (key : Scalar) (fields : Fields) :
    Spells key fields ↔ ∃ e ∈ fields, e.1 = key ∨ e.2.Spells key := by
  induction fields with
  | nil => simp [Spells]
  | cons e rest ih => simp [Spells, ih, or_assoc]

end Fields

mutual

theorem Value.hasTextKeys_iff_spells :
    ∀ v : Value, v.HasTextKeys ↔ ∀ key, v.Spells key → ∃ name, key = .str name
  | .mapping entries => Fields.hasTextKeys_iff_spells entries
  | .scalar _ | .list _ | .set _ | .pair _ _ | .loop _ => by simp [Value.HasTextKeys, Value.Spells]

theorem Fields.hasTextKeys_iff_spells : ∀ fields : List (Scalar × Value),
    Fields.HasTextKeys fields ↔ ∀ key, Fields.Spells key fields → ∃ name, key = .str name
  | [] => by simp [Fields.HasTextKeys, Fields.Spells]
  | (k, v) :: rest => by
      simp only [Fields.HasTextKeys, Fields.Spells, Value.hasTextKeys_iff_spells v,
        Fields.hasTextKeys_iff_spells rest, or_imp, forall_and, forall_eq']

end

namespace Fields.Spells

variable {key : Scalar} {fields : Fields}

theorem of_erase {other : Scalar} (h : Spells key (Table.erase fields other)) : Spells key fields := by
  obtain ⟨e, he, found⟩ := (spells_iff _ _).mp h
  exact (spells_iff _ _).mpr ⟨e, (List.mem_filter.mp he).1, found⟩

theorem of_field? {name : String} {v : Value} (found : fields.field? name = some v)
    (h : v.Spells key) : Spells key fields := by
  unfold field? at found
  induction fields with
  | nil => cases found
  | cons e rest ih =>
      unfold Table.get? at found
      split at found
      · cases found
        exact .inr (.inl h)
      · exact .inr (.inr (ih found))

theorem of_put {name : String} {v : Value} (notText : ∀ s, key ≠ .str s)
    (h : Spells key (Table.put fields (.str name) v)) : v.Spells key ∨ Spells key fields := by
  induction fields with
  | nil => exact .inl ((h.resolve_left (notText name ·.symm)).resolve_right id)
  | cons e rest ih =>
      unfold Table.put at h
      split at h
      · exact h.elim (.inr ∘ .inl) fun h => h.imp id (.inr ∘ .inr)
      · rcases h with h | h | h
        · exact .inr (.inl h)
        · exact .inr (.inr (.inl h))
        · exact (ih h).imp id (.inr ∘ .inr)

end Fields.Spells

/-- How a merge ends: in a value that spells no more keys but texts, or at such a key of what is merged
over the other. -/
inductive MergeEnds (before later : Scalar → Prop) : Except MergeError Value → Prop
  | merged {v : Value} (h : ∀ key, (∀ s, key ≠ .str s) → v.Spells key → before key ∨ later key) :
      MergeEnds before later (.ok v)
  | stopped {key : Scalar} (notText : ∀ s, key ≠ .str s) (h : later key) :
      MergeEnds before later (.error (.keyNotText key))

theorem MergeEnds.imp {before before' later later' : Scalar → Prop}
    (hbefore : ∀ key, (∀ s, key ≠ .str s) → before key → before' key ∨ later' key)
    (hlater : ∀ key, later key → later' key) {result : Except MergeError Value}
    (h : MergeEnds before later result) : MergeEnds before' later' result := by
  cases h with
  | merged h =>
      exact .merged fun key notText spells =>
        (h key notText spells).elim (hbefore key notText) (.inr ∘ hlater key)
  | stopped notText h => exact .stopped notText (hlater _ h)

mutual

theorem Value.mergeOver_ends (current : Option Value) : ∀ v : Value,
    MergeEnds (fun key => ∃ w ∈ current, w.Spells key) (v.Spells ·) (Value.mergeOver current v)
  | .mapping inner => by
      unfold Value.mergeOver
      split
      · rename_i fields
        exact (Fields.merge_ends fields inner).imp (fun _ _ h => .inl ⟨_, rfl, h⟩) fun _ h => h
      · exact .merged fun _ _ h => .inr h
  | .scalar _ | .list _ | .set _ | .pair _ _ | .loop _ => .merged fun _ _ h => .inr h

theorem Fields.merge_ends (base : Fields) : ∀ entries : List (Scalar × Value),
    MergeEnds (Fields.Spells · base) (Fields.Spells · entries) ((Fields.merge base entries).map .mapping)
  | [] => .merged fun _ _ h => .inl h
  | (.str name, v) :: rest => by
      unfold Fields.merge
      split
      · refine (Fields.merge_ends _ rest).imp (fun key notText h => ?_) fun _ h => .inr (.inr h)
        exact (h.of_put notText).elim False.elim .inl
      · split
        · rename_i merged hmerged
          have ends := Value.mergeOver_ends (base.field? name) v
          rw [hmerged] at ends
          obtain ⟨kept⟩ | _ := ends
          refine (Fields.merge_ends _ rest).imp (fun key notText h => ?_) fun _ h => .inr (.inr h)
          rcases h.of_put notText with h | h
          · rcases kept key notText h with ⟨w, found, h⟩ | h
            · exact .inl (.of_field? found h)
            · exact .inr (.inr (.inl h))
          · exact .inl h
        · rename_i e hfails
          have ends := Value.mergeOver_ends (base.field? name) v
          rw [hfails] at ends
          obtain _ | ⟨notText, h⟩ := ends
          exact .stopped notText (.inr (.inl h))
  | (.null, _) :: _ | (.bool _, _) :: _ | (.int _, _) :: _ | (.float _, _) :: _ | (.bytes _, _) :: _
  | (.date _, _) :: _ | (.moment _, _) :: _ => .stopped (by simp) (.inl rfl)

end

/-- Mappings with texts for keys can be merged, and have texts for keys when they are. -/
theorem Fields.merge_hasTextKeys {base entries : Fields} (hbase : Fields.HasTextKeys base)
    (hentries : Fields.HasTextKeys entries) :
    ∃ merged, Fields.merge base entries = .ok merged ∧ Fields.HasTextKeys merged := by
  rw [Fields.hasTextKeys_iff_spells] at hbase hentries
  have ends := Fields.merge_ends base entries
  cases hmerge : Fields.merge base entries with
  | ok merged =>
      rw [hmerge] at ends
      obtain ⟨kept⟩ | _ := ends
      refine ⟨merged, rfl, (Fields.hasTextKeys_iff_spells _).mpr fun key spells => ?_⟩
      by_cases text : ∃ name, key = .str name
      · exact text
      · exact (kept key (fun s h => text ⟨s, h⟩) spells).elim (hbase key) (hentries key)
  | error e =>
      rw [hmerge] at ends
      obtain _ | ⟨notText, h⟩ := ends
      obtain ⟨name, rfl⟩ := hentries _ h
      exact absurd rfl (notText name)

end Conveyor
