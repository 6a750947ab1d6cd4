import Conveyor.Proofs.Value.Append
import Conveyor.Proofs.Value.Merge

/-!
The laws of merging blocks that append nothing. A merge of such blocks keeps the keys of the base in
their order and puts the new ones after them. So a block merged over itself is itself, and of two merges
in a row either may be done first, unless a mapping gives way to something else that gives way to a
mapping again.
-/

namespace Conveyor

mutual

/-- No key comes twice, in the value and in the mappings under it; lists are not looked into. -/
def Value.HasDistinctKeys : Value → Prop
  | .mapping entries => Fields.HasDistinctKeys entries
  | _ => True

def Fields.HasDistinctKeys : List (Scalar × Value) → Prop
  | [] => True
  | (key, v) :: rest => (∀ e ∈ rest, e.1 ≠ key) ∧ v.HasDistinctKeys ∧ Fields.HasDistinctKeys rest

end

/-- No key of the value, or of a mapping under it, is an append marker. -/
def Value.Unmarked (v : Value) : Prop := ∀ name, v.Spells (.str name) → appendTarget? name = none

/-- A value whose mappings have texts for keys, each of them once, and no append markers. -/
structure Value.Plain (v : Value) : Prop where
  texts : v.HasTextKeys
  distinct : v.HasDistinctKeys
  unmarked : v.Unmarked

theorem Value.plain_scalar (s : Scalar) : (Value.scalar s).Plain := ⟨trivial, trivial, fun _ => False.elim⟩

namespace Fields

abbrev Unmarked (fields : Fields) : Prop := Value.Unmarked (.mapping fields)

abbrev Plain (fields : Fields) : Prop := Value.Plain (.mapping fields)

theorem hasDistinctKeys_iff (fields : Fields) :
    HasDistinctKeys fields ↔ (Table.keys fields).Nodup ∧ ∀ e ∈ fields, e.2.HasDistinctKeys := by
  induction fields with
  | nil => simp [HasDistinctKeys, Table.keys]
  | cons e rest ih =>
      obtain ⟨key, v⟩ := e
      simp only [HasDistinctKeys, ih, Table.keys, List.map_cons, List.nodup_cons, List.mem_map,
        List.forall_mem_cons, not_exists, not_and]
      tauto

theorem plain_iff (fields : Fields) : fields.Plain ↔ (Table.keys fields).Nodup ∧
    ∀ e ∈ fields, (∃ name, e.1 = .str name ∧ appendTarget? name = none) ∧ e.2.Plain := by
  constructor
  · intro plain
    obtain ⟨nodup, distinct⟩ := (hasDistinctKeys_iff fields).mp plain.distinct
    refine ⟨nodup, fun e he => ?_⟩
    obtain ⟨⟨name, text⟩, texts⟩ := (hasTextKeys_iff fields).mp plain.texts e he
    refine ⟨⟨name, text, plain.unmarked name ((spells_iff _ _).mpr ⟨e, he, .inl text⟩)⟩, texts,
      distinct e he, fun other found => ?_⟩
    exact plain.unmarked other ((spells_iff _ _).mpr ⟨e, he, .inr found⟩)
  · rintro ⟨nodup, each⟩
    refine ⟨(hasTextKeys_iff fields).mpr fun e he => ?_,
      (hasDistinctKeys_iff fields).mpr ⟨nodup, fun e he => (each e he).2.distinct⟩, fun other found => ?_⟩
    · obtain ⟨⟨name, text, -⟩, plain⟩ := each e he
      exact ⟨⟨name, text⟩, plain.texts⟩
    · obtain ⟨e, he, found⟩ := (spells_iff _ _).mp found
      obtain ⟨⟨name, text, unmarked⟩, plain⟩ := each e he
      rcases found with same | found
      · cases text.symm.trans same
        exact unmarked
      · exact plain.unmarked other found

theorem mem_of_field? {fields : Fields} {name : String} {v : Value} (h : fields.field? name = some v) :
    (.str name, v) ∈ fields := by
  unfold field? at h
  induction fields with
  | nil => cases h
  | cons e rest ih =>
      obtain ⟨key, w⟩ := e
      unfold Table.get? at h
      split at h
      · rename_i same
        cases h
        simp [(Scalar.beq_str_iff key name).mp same]
      · exact List.mem_cons_of_mem _ (ih h)

theorem field?_of_mem {fields : Fields} (nodup : (Table.keys fields).Nodup) {name : String} {v : Value}
    (h : (.str name, v) ∈ fields) : fields.field? name = some v := by
  unfold field?
  induction fields with
  | nil => cases h
  | cons e rest ih =>
      obtain ⟨key, w⟩ := e
      obtain ⟨fresh, nodup⟩ := List.nodup_cons.mp nodup
      rcases List.mem_cons.mp h with same | later
      · cases same
        simp [Table.get?, Scalar.beq_str_iff]
      · have other : key ≠ .str name := by
          rintro rfl
          exact fresh (List.mem_map.mpr ⟨_, later, rfl⟩)
        simpa [Table.get?, Scalar.beq_str_iff, other] using ih nodup later

theorem field?_nil (name : String) : field? [] name = none := rfl

theorem field?_cons (key : String) (v : Value) (rest : Fields) (name : String) :
    field? ((.str key, v) :: rest) name = if key = name then some v else rest.field? name := by
  simp [field?, Table.get?, Scalar.beq_str_iff]

theorem has_iff (fields : Fields) (name : String) :
    Table.has fields (.str name) = true ↔ .str name ∈ Table.keys fields := by
  rw [← not_iff_not, Bool.not_eq_true, Table.has, Option.isSome_eq_false_iff, Option.isNone_iff_eq_none]
  change fields.field? name = none ↔ _
  rw [field?_eq_none_iff, Table.keys, List.mem_map]
  simp only [not_exists, not_and]

theorem keys_put (fields : Fields) (name : String) (v : Value) :
    Table.keys (Table.put fields (.str name) v) =
      if Table.has fields (.str name) then Table.keys fields else Table.keys fields ++ [.str name] := by
  induction fields with
  | nil => simp [Table.put, Table.keys, Table.has, Table.get?]
  | cons e rest ih =>
      obtain ⟨key, w⟩ := e
      by_cases same : key = .str name
      · simp [Table.put, Table.keys, Table.has, Table.get?, Scalar.beq_str_iff, same]
      · have here : (key == .str name) = false := by
          simpa [← Bool.not_eq_true, Scalar.beq_str_iff] using same
        simp only [Table.put, Table.keys, Table.has, Table.get?, here, Bool.false_eq_true, if_false,
          List.map_cons] at ih ⊢
        split <;> rename_i there <;> simp [ih, there]

theorem mem_put {fields : Fields} {name : String} {v : Value} {e : Scalar × Value}
    (h : e ∈ Table.put fields (.str name) v) : e = (.str name, v) ∨ e ∈ fields := by
  induction fields with
  | nil => exact .inl (List.mem_singleton.mp h)
  | cons first rest ih =>
      obtain ⟨key, w⟩ := first
      unfold Table.put at h
      split at h
      · rename_i same
        rw [(Scalar.beq_str_iff key name).mp same] at h
        exact (List.mem_cons.mp h).imp id (List.mem_cons_of_mem _)
      · rcases List.mem_cons.mp h with rfl | later
        · exact .inr List.mem_cons_self
        · exact (ih later).imp id (List.mem_cons_of_mem _)

theorem nodup_keys_put {fields : Fields} (nodup : (Table.keys fields).Nodup) (name : String) (v : Value) :
    (Table.keys (Table.put fields (.str name) v)).Nodup := by
  rw [keys_put]
  split
  · exact nodup
  · rename_i absent
    rw [has_iff] at absent
    exact nodup.append (List.nodup_singleton _) (by simpa using absent)

/-- Fields that hold the same under the same keys in one order are the same. -/
theorem ext_field? {f g : Fields} (plain : f.Plain) (plain' : g.Plain) (keys : Table.keys f = Table.keys g)
    (fields : ∀ name, f.field? name = g.field? name) : f = g := by
  obtain ⟨nodup, each⟩ := (plain_iff f).mp plain
  obtain ⟨nodup', -⟩ := (plain_iff g).mp plain'
  have values : ∀ e ∈ f, ∀ e' ∈ g, e.1 = e'.1 → e = e' := by
    rintro ⟨key, v⟩ he ⟨key', w⟩ he' same
    obtain ⟨⟨name, text, -⟩, -⟩ := each _ he
    cases same
    cases text
    have here := field?_of_mem nodup he
    rw [fields, field?_of_mem nodup' he'] at here
    cases here
    rfl
  refine List.ext_getElem (by simpa [Table.keys] using congrArg List.length keys) fun i hi hi' => ?_
  refine values _ (List.getElem_mem hi) _ (List.getElem_mem hi') ?_
  have at_i := congrArg (·[i]?) keys
  simpa [Table.keys, hi, hi'] using at_i

/-- What is true of fields once it is true of the mappings that they hold is true of all. -/
theorem byField {P : Fields → Prop}
    (step : ∀ fields : Fields,
      (∀ name inner, fields.field? name = some (.mapping inner) → P inner) → P fields)
    (fields : Fields) : P fields :=
  step fields fun _ inner _ => byField step inner
termination_by sizeOf fields
decreasing_by
  have smaller := List.sizeOf_lt_of_mem (mem_of_field? ‹_›)
  simp at smaller
  omega

theorem Plain.of_field? {fields : Fields} (plain : fields.Plain) {name : String} {v : Value}
    (h : fields.field? name = some v) : v.Plain :=
  (((plain_iff fields).mp plain).2 _ (mem_of_field? h)).2

theorem Plain.put {fields : Fields} (plain : fields.Plain) {name : String}
    (unmarked : appendTarget? name = none) {v : Value} (value : v.Plain) :
    Plain (Table.put fields (.str name) v) := by
  obtain ⟨nodup, each⟩ := (plain_iff fields).mp plain
  refine (plain_iff _).mpr ⟨nodup_keys_put nodup name v, fun e he => ?_⟩
  rcases mem_put he with rfl | there
  · exact ⟨⟨name, rfl, unmarked⟩, value⟩
  · exact each e there

theorem Plain.cons {key : Scalar} {v : Value} {rest : Fields} (plain : Plain ((key, v) :: rest)) :
    ∃ name, key = .str name ∧ appendTarget? name = none ∧ v.Plain ∧ rest.Plain ∧
      rest.field? name = none := by
  obtain ⟨nodup, each⟩ := (plain_iff _).mp plain
  obtain ⟨fresh, nodup⟩ := List.nodup_cons.mp nodup
  obtain ⟨⟨⟨name, text, unmarked⟩, value⟩, each⟩ := List.forall_mem_cons.mp each
  refine ⟨name, text, unmarked, value, (plain_iff rest).mpr ⟨nodup, each⟩, ?_⟩
  exact (field?_eq_none_iff _ _).mpr fun e he same => fresh (List.mem_map.mpr ⟨e, he, same.trans text.symm⟩)

theorem merge_cons {name : String} (unmarked : appendTarget? name = none) (base : Fields) (v : Value)
    (rest : Fields) : merge base ((.str name, v) :: rest) =
      (Value.mergeOver (base.field? name) v).bind fun w => merge (Table.put base (.str name) w) rest := by
  simp only [merge, unmarked]
  split <;> rename_i merged <;> rw [merged] <;> rfl

end Fields

mutual

theorem Value.mergeOver_plain {current : Option Value} (held : ∀ w ∈ current, w.Plain) :
    ∀ v : Value, v.Plain → ∃ merged, Value.mergeOver current v = .ok merged ∧ merged.Plain
  | .mapping inner, plain => by
      unfold Value.mergeOver
      split
      · obtain ⟨merged, hmerged, plain⟩ := Fields.merge_plain inner (held _ rfl) plain
        exact ⟨.mapping merged, by rw [hmerged]; rfl, plain⟩
      · exact ⟨_, rfl, plain⟩
  | .scalar s, plain => ⟨_, rfl, plain⟩
  | .list items, plain => ⟨_, rfl, plain⟩
  | .set members, plain => ⟨_, rfl, plain⟩
  | .pair first second, plain => ⟨_, rfl, plain⟩
  | .loop isMapping, plain => ⟨_, rfl, plain⟩

/-- Plain fields can be merged, and are plain when they are. -/
theorem Fields.merge_plain : ∀ (override : List (Scalar × Value)) {base : Fields}, base.Plain →
    Fields.Plain override → ∃ merged, Fields.merge base override = .ok merged ∧ Fields.Plain merged
  | [], base, plain, _ => ⟨base, rfl, plain⟩
  | (key, v) :: rest, base, plain, override => by
      obtain ⟨name, rfl, unmarked, value, override, -⟩ := override.cons
      have held : ∀ w ∈ base.field? name, w.Plain := fun w found => plain.of_field? found
      obtain ⟨w, hw, written⟩ := Value.mergeOver_plain held v value
      rw [Fields.merge_cons unmarked, hw]
      exact Fields.merge_plain rest (plain.put unmarked written) override

end

/-- What becomes of a field when another is merged over it, where either may not be there. -/
def Value.overlay (current : Option Value) : Option Value → Except MergeError (Option Value)
  | none => .ok current
  | some v => (Value.mergeOver current v).map some

namespace Fields

variable {base override merged : Fields}

theorem field?_merge_of_plain (plain : override.Plain) (h : base.merge override = .ok merged)
    (name : String) :
    Value.overlay (base.field? name) (override.field? name) = .ok (merged.field? name) := by
  induction override generalizing base with
  | nil =>
      cases h
      rfl
  | cons e rest ih =>
      obtain ⟨key, v⟩ := e
      obtain ⟨key, rfl, unmarked, -, plain, absent⟩ := plain.cons
      rw [merge_cons unmarked] at h
      obtain ⟨w, hw, h⟩ := ok_of_bind_ok h
      have later := ih plain h
      rw [field?_put] at later
      rw [field?_cons]
      split at later
      · rename_i here
        subst here
        rw [absent] at later
        rw [if_pos rfl, ← later]
        simp only [Value.overlay, hw, Except.map]
      · rename_i other
        rw [if_neg other, later]

/-- The keys of the base come first, in their order, and then the new ones in theirs. -/
theorem keys_merge (plain : override.Plain) (h : base.merge override = .ok merged) :
    Table.keys merged = Table.keys base ++ (Table.keys override).filter fun key => !Table.has base key := by
  induction override generalizing base with
  | nil =>
      cases h
      simp [Table.keys]
  | cons e rest ih =>
      obtain ⟨key, v⟩ := e
      obtain ⟨name, rfl, unmarked, -, plain, absent⟩ := plain.cons
      rw [merge_cons unmarked] at h
      obtain ⟨w, -, h⟩ := ok_of_bind_ok h
      -- the name is no key of the rest, so that having it or not makes no difference there
      have unseen : (Table.keys rest).filter (fun key => !Table.has (Table.put base (.str name) w) key) =
          (Table.keys rest).filter fun key => !Table.has base key := by
        refine List.filter_congr fun key hkey => ?_
        obtain ⟨e, he, rfl⟩ := List.mem_map.mp hkey
        obtain ⟨other, text, -⟩ := (((plain_iff rest).mp plain).2 e he).1
        have apart : name ≠ other := by
          rintro rfl
          exact (field?_eq_none_iff _ _).mp absent e he text
        have same := field?_put base name other w
        rw [if_neg apart] at same
        rw [text, Table.has, Table.has]
        exact congrArg (fun found => !Option.isSome found) same
      rw [ih plain h, keys_put, unseen]
      cases there : Table.has base (.str name) <;> simp [Table.keys, there]

theorem has_merge (plain : override.Plain) (h : base.merge override = .ok merged) (name : String) :
    Table.has merged (.str name) = (Table.has base (.str name) || Table.has override (.str name)) := by
  rw [Bool.eq_iff_iff, Bool.or_eq_true, has_iff, has_iff, has_iff, keys_merge plain h, List.mem_append,
    List.mem_filter, Bool.not_eq_true', ← Bool.not_eq_true, has_iff]
  tauto

end Fields

namespace Value

/-- What a value holds at a path of keys. -/
def at? : Value → List String → Option Value
  | v, [] => some v
  | .mapping fields, name :: path => (Fields.field? fields name).bind (·.at? path)
  | _, _ :: _ => none

theorem mapping_of_at? {v : Value} {path : List String} {fields : Fields}
    (h : v.at? path = some (.mapping fields)) : ∃ outer, v = .mapping outer := by
  cases path with
  | nil => exact ⟨fields, Option.some.inj h⟩
  | cons name path =>
      cases v with
      | mapping outer => exact ⟨outer, rfl⟩
      | _ => cases h

theorem at?_cons_eq_some {fields : Fields} {name : String} {path : List String} {v : Value} :
    (Value.mapping fields).at? (name :: path) = some v ↔
      ∃ w, fields.field? name = some w ∧ w.at? path = some v := by
  rw [at?, Option.bind_eq_some_iff]

theorem overlay_mapping (x y : Fields) : overlay (some (.mapping x)) (some (.mapping y)) =
    (x.merge y).map fun merged => some (.mapping merged) := by
  rw [overlay, mergeOver]
  cases x.merge y <;> rfl

theorem overlay_mapping_ok {x y : Fields} {merged : Option Value}
    (h : overlay (some (.mapping x)) (some (.mapping y)) = .ok merged) :
    ∃ fields, x.merge y = .ok fields ∧ merged = some (.mapping fields) := by
  rw [overlay_mapping] at h
  cases hmerge : x.merge y with
  | ok fields =>
      rw [hmerge] at h
      exact ⟨fields, rfl, (Except.ok.inj h).symm⟩
  | error e =>
      rw [hmerge] at h
      cases h

theorem overlay_some {current : Option Value} {v : Value}
    (apart : ∀ x y, current = some (.mapping x) → v ≠ .mapping y) :
    overlay current (some v) = .ok (some v) := by
  rw [overlay]
  cases v with
  | mapping y =>
      unfold mergeOver
      split
      · exact absurd rfl (apart _ y rfl)
      · rfl
  | _ => rfl

/-- One after the other or the last two first: where the merges of mappings in them come to the same,
and no mapping gives way to something else before a mapping comes again, these come to the same. -/
theorem overlay_assoc {first second third both later : Option Value}
    (hboth : overlay first second = .ok both) (hlater : overlay second third = .ok later)
    (kept : ∀ x y z, first = some (.mapping x) → second = some y → third = some (.mapping z) →
      ∃ fields, y = .mapping fields)
    (inner : ∀ x y z xy yz : Fields, first = some (.mapping x) → second = some (.mapping y) →
      third = some (.mapping z) → x.merge y = .ok xy → y.merge z = .ok yz → xy.merge z = x.merge yz) :
    overlay both third = overlay first later := by
  cases third with
  | none =>
      cases hlater
      exact hboth.symm
  | some v => cases second with
    | none =>
        cases hboth
        rw [overlay_some (by simp)] at hlater
        rw [← Except.ok.inj hlater]
    | some w =>
        by_cases mappings : ∃ y z, w = .mapping y ∧ v = .mapping z
        · obtain ⟨y, z, rfl, rfl⟩ := mappings
          have onTop := hlater
          obtain ⟨yz, hyz, rfl⟩ := overlay_mapping_ok hlater
          by_cases base : ∃ x, first = some (.mapping x)
          · obtain ⟨x, rfl⟩ := base
            obtain ⟨xy, hxy, rfl⟩ := overlay_mapping_ok hboth
            rw [overlay_mapping, overlay_mapping, inner x y z xy yz rfl rfl rfl hxy hyz]
          · rw [overlay_some fun x _ hx => absurd ⟨x, hx⟩ base] at hboth ⊢
            rw [← Except.ok.inj hboth, onTop]
        · rw [overlay_some fun y z hy hz => mappings ⟨y, z, Option.some.inj hy, hz⟩] at hlater
          rw [← Except.ok.inj hlater]
          by_cases last : ∃ z, v = .mapping z
          · obtain ⟨z, rfl⟩ := last
            have notBase : ∀ x, first ≠ some (.mapping x) := by
              rintro x hx
              obtain ⟨y, rfl⟩ := kept x w z hx rfl rfl
              exact mappings ⟨y, z, rfl, rfl⟩
            rw [overlay_some fun x _ hx => absurd hx (notBase x)] at hboth ⊢
            rw [← Except.ok.inj hboth]
            exact overlay_some fun y z' hy _ => mappings ⟨y, z, Option.some.inj hy, rfl⟩
          · rw [overlay_some fun _ z _ hz => last ⟨z, hz⟩, overlay_some fun _ z _ hz => last ⟨z, hz⟩]

end Value

namespace Fields

/-- A mapping gives way to something else, over which a mapping comes again. -/
def Interrupted (first second third : Fields) : Prop :=
  ∃ path x y z, (Value.mapping first).at? path = some (.mapping x) ∧
    (Value.mapping second).at? path = some y ∧ (∀ fields, y ≠ .mapping fields) ∧
    (Value.mapping third).at? path = some (.mapping z)

theorem interrupted_iff {first second third : Fields} : Interrupted first second third ↔
    ∃ name x y z, first.field? name = some (.mapping x) ∧ second.field? name = some y ∧
      third.field? name = some (.mapping z) ∧ ∀ inner, y = .mapping inner → Interrupted x inner z := by
  constructor
  · rintro ⟨path, x, y, z, hx, hy, other, hz⟩
    cases path with
    | nil => exact absurd (Option.some.inj hy).symm (other _)
    | cons name path =>
        obtain ⟨u, hu, hx⟩ := Value.at?_cons_eq_some.mp hx
        obtain ⟨v, hv, hy⟩ := Value.at?_cons_eq_some.mp hy
        obtain ⟨w, hw, hz⟩ := Value.at?_cons_eq_some.mp hz
        obtain ⟨inner, rfl⟩ := Value.mapping_of_at? hx
        obtain ⟨inner', rfl⟩ := Value.mapping_of_at? hz
        refine ⟨name, inner, v, inner', hu, hv, hw, ?_⟩
        rintro inside rfl
        exact ⟨path, x, y, z, hx, hy, other, hz⟩
  · rintro ⟨name, x, y, z, hx, hy, hz, inside⟩
    by_cases mapping : ∃ inner, y = .mapping inner
    · obtain ⟨inner, rfl⟩ := mapping
      obtain ⟨path, a, b, c, ha, hb, other, hc⟩ := inside inner rfl
      exact ⟨name :: path, a, b, c, Value.at?_cons_eq_some.mpr ⟨_, hx, ha⟩,
        Value.at?_cons_eq_some.mpr ⟨_, hy, hb⟩, other, Value.at?_cons_eq_some.mpr ⟨_, hz, hc⟩⟩
    · exact ⟨[name], x, y, z, Value.at?_cons_eq_some.mpr ⟨_, hx, rfl⟩,
        Value.at?_cons_eq_some.mpr ⟨_, hy, rfl⟩, not_exists.mp mapping,
        Value.at?_cons_eq_some.mpr ⟨_, hz, rfl⟩⟩

theorem merge_assoc (third : Fields) : ∀ {first second both later : Fields}, first.Plain → second.Plain →
    third.Plain → ¬ Interrupted first second third → first.merge second = .ok both →
    second.merge third = .ok later → both.merge third = first.merge later := by
  induction third using byField with
  | step third ih =>
      intro first second both later plain plain' plain'' calm hboth hlater
      obtain ⟨_, same, plainBoth⟩ := merge_plain second plain plain'
      cases hboth.symm.trans same
      obtain ⟨_, same, plainLater⟩ := merge_plain third plain' plain''
      cases hlater.symm.trans same
      obtain ⟨left, hleft, plainLeft⟩ := merge_plain third plainBoth plain''
      obtain ⟨right, hright, plainRight⟩ := merge_plain later plain plainLater
      rw [hleft, hright]
      refine congrArg Except.ok (ext_field? plainLeft plainRight ?_ fun name => ?_)
      · have known : (Table.keys third).filter (fun key => !Table.has both key) =
            ((Table.keys third).filter fun key => !Table.has second key).filter
              fun key => !Table.has first key := by
          rw [List.filter_filter]
          refine List.filter_congr fun key hkey => ?_
          obtain ⟨e, he, rfl⟩ := List.mem_map.mp hkey
          obtain ⟨name, text, -⟩ := (((plain_iff third).mp plain'').2 e he).1
          rw [text, has_merge plain' hboth, Bool.not_or]
        rw [keys_merge plain'' hleft, keys_merge plain' hboth, keys_merge plainLater hright,
          keys_merge plain'' hlater, known, List.filter_append, List.append_assoc]
      · refine Except.ok.inj (ε := MergeError) ?_
        rw [← field?_merge_of_plain plain'' hleft, ← field?_merge_of_plain plainLater hright]
        refine Value.overlay_assoc (field?_merge_of_plain plain' hboth name)
          (field?_merge_of_plain plain'' hlater name) (fun x y z hx hy hz => ?_) ?_
        · by_contra other
          exact calm (interrupted_iff.mpr
            ⟨name, x, y, z, hx, hy, hz, fun inner same => absurd ⟨inner, same⟩ other⟩)
        · intro x y z xy yz hx hy hz
          refine ih name z hz (plain.of_field? hx) (plain'.of_field? hy) (plain''.of_field? hz)
            fun inside => ?_
          exact calm (interrupted_iff.mpr ⟨name, x, .mapping y, z, hx, hy, hz,
            fun _ same => Value.mapping.inj same ▸ inside⟩)

theorem merge_self (fields : Fields) : fields.Plain → fields.merge fields = .ok fields := by
  induction fields using byField with
  | step fields ih =>
      intro plain
      obtain ⟨merged, hmerged, plain'⟩ := merge_plain fields plain plain
      rw [hmerged]
      refine congrArg Except.ok (ext_field? plain' plain ?_ fun name => ?_)
      · have none : (Table.keys fields).filter (fun key => !Table.has fields key) = [] := by
          refine List.filter_eq_nil_iff.mpr fun key hkey => ?_
          obtain ⟨e, he, rfl⟩ := List.mem_map.mp hkey
          obtain ⟨name, text, -⟩ := (((plain_iff fields).mp plain).2 e he).1
          rw [text] at hkey ⊢
          simpa using (has_iff _ _).mpr hkey
        rw [keys_merge plain hmerged, none, List.append_nil]
      · have view := field?_merge_of_plain plain hmerged name
        cases found : fields.field? name with
        | none =>
            rw [found] at view
            exact (Except.ok.inj view).symm
        | some v =>
            rw [found] at view
            cases v with
            | mapping inner =>
                rw [Value.overlay_mapping, ih name inner found (plain.of_field? found)] at view
                exact (Except.ok.inj view).symm
            | _ => exact (Except.ok.inj view).symm

/-- Where both hold mappings, what they merge to holds the merge of these. -/
theorem merge_at? {path : List String} : ∀ {first second both x y : Fields}, first.Plain → second.Plain →
    first.merge second = .ok both → (Value.mapping first).at? path = some (.mapping x) →
    (Value.mapping second).at? path = some (.mapping y) →
    y.Plain ∧ ∃ xy, x.merge y = .ok xy ∧ (Value.mapping both).at? path = some (.mapping xy) := by
  induction path with
  | nil =>
      intro first second both x y _ plain' hboth hx hy
      cases hx
      cases hy
      exact ⟨plain', both, hboth, rfl⟩
  | cons name path ih =>
      intro first second both x y plain plain' hboth hx hy
      obtain ⟨v, hv, hx⟩ := Value.at?_cons_eq_some.mp hx
      obtain ⟨w, hw, hy⟩ := Value.at?_cons_eq_some.mp hy
      obtain ⟨inner, rfl⟩ := Value.mapping_of_at? hx
      obtain ⟨inner', rfl⟩ := Value.mapping_of_at? hy
      have view := field?_merge_of_plain plain' hboth name
      rw [hv, hw] at view
      obtain ⟨merged, hmerged, held⟩ := Value.overlay_mapping_ok view
      obtain ⟨plainHere, xy, hxy, there⟩ := ih (plain.of_field? hv) (plain'.of_field? hw) hmerged hx hy
      exact ⟨plainHere, xy, hxy, Value.at?_cons_eq_some.mpr ⟨_, held, there⟩⟩

/-- Variables that three blocks give, the first beside a command. -/
def sampleFirst : Fields := [(.str "variables", .mapping [(.str "A", .int 1), (.str "B", .int 2)]),
  (.str "script", .str "s")]

def sampleSecond : Fields := [(.str "image", .str "i"),
  (.str "variables", .mapping [(.str "C", .int 3), (.str "B", .int 4)])]

def sampleThird : Fields := [(.str "variables", .mapping [(.str "A", .mapping [(.str "value", .int 5)])])]

/-- A text between two mappings: the keys of the first are lost only if it is merged before the last. -/
example : (Fields.merge [(.str "k", .mapping [(.str "x", .null)])] [(.str "k", .null)] >>=
      fun both => both.merge [(.str "k", .mapping [(.str "y", .null)])]) =
        .ok [(.str "k", .mapping [(.str "y", .null)])] ∧
    (Fields.merge [(.str "k", .null)] [(.str "k", .mapping [(.str "y", .null)])] >>=
      fun later => Fields.merge [(.str "k", .mapping [(.str "x", .null)])] later) =
        .ok [(.str "k", .mapping [(.str "x", .null), (.str "y", .null)])] :=
  ⟨by rfl, by rfl⟩

end Fields

end Conveyor
