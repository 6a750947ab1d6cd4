import Conveyor.Proofs.Effect
import Conveyor.Proofs.Table
import Conveyor.Value.Merge

/-!
Merging entry by entry. Each entry writes one field, from what that field holds: so the fields around
the place of one come out the same whatever it holds, and an append marker adds to what its field held
when it was reached, and to nothing that is merged underneath later.
-/

namespace Conveyor

/-- The field that an entry writes. -/
def fieldOf (key : String) : String := (appendTarget? key).getD key

theorem eq_of_appendTarget? {key name : String} (h : appendTarget? key = some name) :
    key = name ++ "+" := by
  unfold appendTarget? at h
  split at h
  · rename_i c rest spelled
    cases h
    have letters : key.toList = (c :: rest).reverse ++ ['+'] := by
      rw [← List.reverse_cons, ← spelled, List.reverse_reverse]
    apply String.toList_inj.mp
    simp [letters]
  · cases h

theorem Scalar.beq_str_iff (key : Scalar) (name : String) :
    (key == .str name) = true ↔ key = .str name := by
  change key.sameKey (.str name) = true ↔ _
  cases key <;> simp [Scalar.sameKey, Scalar.int?]

/-- What becomes of the field that an entry writes. -/
def Value.enter (current : Option Value) (key : String) (v : Value) : Except MergeError Value :=
  if (appendTarget? key).isSome then .ok (.list ((current.getD .null).asList ++ v.asList))
  else Value.mergeOver current v

namespace Fields

theorem field?_put (fields : Fields) (key name : String) (v : Value) :
    field? (fields.put (.str key) v) name = if key = name then some v else fields.field? name := by
  unfold field?
  induction fields with
  | nil => simp [Table.put, Table.get?, Scalar.beq_str_iff]
  | cons e rest ih =>
      obtain ⟨k, w⟩ := e
      by_cases hk : k = .str key
      · subst hk
        by_cases h : key = name <;> simp [Table.put, Table.get?, Scalar.beq_str_iff, h]
      · by_cases hn : k = .str name
        · have h : key ≠ name := by
            rintro rfl
            exact hk hn
          simp [Table.put, Table.get?, Scalar.beq_str_iff, hn, Ne.symm h, h]
        · simp [Table.put, Table.get?, Scalar.beq_str_iff, hk, hn, ih]

theorem field?_eq_none_iff (fields : Fields) (name : String) :
    fields.field? name = none ↔ ∀ e ∈ fields, e.1 ≠ .str name := by
  unfold field?
  induction fields with
  | nil => simp [Table.get?]
  | cons e rest ih =>
      by_cases h : e.1 = .str name <;> simp [Table.get?, Scalar.beq_str_iff, h, ih]

/-- Merges one entry over fields. -/
def enter (fields : Fields) : Scalar × Value → Except MergeError Fields
  | (.str key, v) =>
    (Value.enter (fields.field? (fieldOf key)) key v).map (fields.put (.str (fieldOf key)))
  | (key, _) => .error (.keyNotText key)

/-- An entry that is merged has a text for its key, and puts one field. -/
theorem eq_put_of_enter {fields next : Fields} {e : Scalar × Value} (h : fields.enter e = .ok next) :
    ∃ key v w, e = (.str key, v) ∧ next = Table.put fields (.str (fieldOf key)) w := by
  obtain ⟨key, v⟩ := e
  cases key with
  | str key =>
      simp only [enter] at h
      match hentered : Value.enter (fields.field? (fieldOf key)) key v, h with
      | .ok w, h =>
          cases h
          exact ⟨key, v, w, rfl, rfl⟩
  | _ => cases h

theorem merge_eq_foldlM (base : Fields) (entries : List (Scalar × Value)) :
    merge base entries = entries.foldlM enter base := by
  induction entries generalizing base with
  | nil => simp [merge]; rfl
  | cons e rest ih =>
      obtain ⟨key, v⟩ := e
      rw [List.foldlM_cons]
      cases key with
      | str key =>
          unfold merge
          split
          · rename_i target marked
            simp only [enter, Value.enter, fieldOf, marked, field, ih]
            rfl
          · rename_i plain
            simp only [enter, Value.enter, fieldOf, plain]
            split <;> rename_i merged
            · simp [merged, ih]; rfl
            · simp [merged]; rfl
      | _ => rfl

/-- What merging an entry does to the field of a name. -/
def onField (name : String) (current : Option Value) : Scalar × Value → Except MergeError (Option Value)
  | (.str key, v) => if fieldOf key = name then (Value.enter current key v).map some else .ok current
  | _ => .ok current

theorem field?_enter {fields next : Fields} {e : Scalar × Value} (h : fields.enter e = .ok next)
    (name : String) : onField name (fields.field? name) e = .ok (next.field? name) := by
  obtain ⟨key, v⟩ := e
  cases key with
  | str key =>
      simp only [enter] at h
      match hv : Value.enter (fields.field? (fieldOf key)) key v with
      | .error e =>
          rw [hv] at h
          cases h
      | .ok w =>
          rw [hv] at h
          cases h
          rw [onField, field?_put]
          split
          · rename_i here
            rw [← here, hv]
            rfl
          · rfl
  | _ => cases h

/-- A field of what is merged depends on this field of the base only. -/
theorem field?_merge {base merged : Fields} {entries : List (Scalar × Value)}
    (h : merge base entries = .ok merged) (name : String) :
    entries.foldlM (onField name) (base.field? name) = .ok (merged.field? name) := by
  rw [merge_eq_foldlM] at h
  induction entries generalizing base with
  | nil =>
      cases h
      rfl
  | cons e rest ih =>
      rw [List.foldlM_cons] at h ⊢
      obtain ⟨next, hnext, h⟩ := ok_of_bind_ok h
      rw [field?_enter hnext name]
      exact ih h

/-- Nothing that the entries write is the field of the name. -/
def Spares (name : String) (entries : List (Scalar × Value)) : Prop :=
  ∀ e ∈ entries, ∀ key, e.1 = .str key → fieldOf key ≠ name

/-- What the entries append to the field of a name. -/
def marked (name : String) (entries : List (Scalar × Value)) : List Value :=
  entries.flatMap fun
    | (.str key, v) => if appendTarget? key = some name then v.asList else []
    | _ => []

/-- What is appended to the field of a name once the field itself is there. -/
def markedAfter (name : String) (fields : Fields) : List Value :=
  marked name (fields.dropWhile fun e => !(e.1 == .str name))

theorem onField_marked {name : String} {e : Scalar × Value} (other : e.1 ≠ .str name)
    (current : Option Value) : ∃ next, onField name current e = .ok next ∧
      (next.getD .null).asList = (current.getD .null).asList ++ marked name [e] := by
  obtain ⟨key, v⟩ := e
  cases key with
  | str key =>
      cases target : appendTarget? key with
      | none =>
          have other : key ≠ name := fun same => other (congrArg Scalar.str same)
          exact ⟨current, by simp [onField, fieldOf, target, other], by simp [marked, target]⟩
      | some field =>
          by_cases same : field = name
          · subst same
            refine ⟨some (.list ((current.getD .null).asList ++ v.asList)), ?_, ?_⟩
            · simp [onField, fieldOf, target, Value.enter, Except.map]
            · simp [marked, target, Value.asList]
          · exact ⟨current, by simp [onField, fieldOf, target, same], by simp [marked, target, same]⟩
  | _ => exact ⟨current, rfl, by simp [marked]⟩

/-- Entries that append only, and do not give the field itself. -/
theorem foldlM_onField_marked {name : String} {entries : List (Scalar × Value)}
    (apart : ∀ e ∈ entries, e.1 ≠ .str name) (current : Option Value) :
    ∃ last, entries.foldlM (onField name) current = .ok last ∧
      (last.getD .null).asList = (current.getD .null).asList ++ marked name entries := by
  induction entries generalizing current with
  | nil => exact ⟨current, rfl, by simp [marked]⟩
  | cons e rest ih =>
      obtain ⟨here, apart⟩ := List.forall_mem_cons.mp apart
      obtain ⟨next, hnext, first⟩ := onField_marked here current
      obtain ⟨last, hlast, rest⟩ := ih apart next
      refine ⟨last, by rw [List.foldlM_cons, hnext]; exact hlast, ?_⟩
      rw [rest, first]
      simp [marked]

end Fields

/-- The place of one field among the others. -/
structure Place (name : String) where
  before : Fields
  after : Fields
  apart : ∀ e ∈ before ++ after, e.1 ≠ .str name

namespace Place

variable {name : String} (place : Place name)

/-- The fields with a value at the place, or with none. -/
def fill (v : Option Value) : Fields := place.before ++ (v.toList.map (Scalar.str name, ·) ++ place.after)

theorem before_field? : place.before.field? name = none :=
  (Fields.field?_eq_none_iff _ _).mpr fun e he => place.apart e (List.mem_append_left _ he)

theorem after_field? : place.after.field? name = none :=
  (Fields.field?_eq_none_iff _ _).mpr fun e he => place.apart e (List.mem_append_right _ he)

theorem field?_fill (v : Option Value) : (place.fill v).field? name = v := by
  have before := place.before_field?
  have after := place.after_field?
  unfold Fields.field? at *
  rw [fill, Table.get?_append, Table.get?_append, before, after]
  cases v <;> simp [Table.get?, Scalar.beq_str_iff]

theorem field?_fill_of_ne {other : String} (h : other ≠ name) (v : Option Value) :
    (place.fill v).field? other = (place.before.field? other).or (place.after.field? other) := by
  unfold Fields.field?
  rw [fill, Table.get?_append, Table.get?_append]
  cases v <;> simp [Table.get?, Scalar.beq_str_iff, Ne.symm h]

/-- Another field is put beside the place, whatever the place holds. -/
theorem put_fill_of_ne {other : String} (h : other ≠ name) (w : Value) :
    ∃ next : Place name, ∀ v, Table.put (place.fill v) (.str other) w = next.fill v := by
  have held : ∀ v : Option Value,
      Table.has (v.toList.map (Scalar.str name, ·)) (Scalar.str other) = false := by
    intro v
    cases v <;> simp [Table.has, Table.get?, Scalar.beq_str_iff, Ne.symm h]
  have lacks : ∀ {fields : Fields}, fields.field? name = none →
      Fields.field? (Table.put fields (.str other) w) name = none := by
    intro fields absent
    rw [Fields.field?_put, if_neg h, absent]
  by_cases has : Table.has place.before (Scalar.str other) = true
  · refine ⟨⟨Table.put place.before (.str other) w, place.after, ?_⟩, fun v => ?_⟩
    · exact List.forall_mem_append.mpr ⟨(Fields.field?_eq_none_iff _ _).mp (lacks place.before_field?),
        (Fields.field?_eq_none_iff _ _).mp place.after_field?⟩
    · simp [fill, Table.put_append, has]
  · refine ⟨⟨place.before, Table.put place.after (.str other) w, ?_⟩, fun v => ?_⟩
    · exact List.forall_mem_append.mpr ⟨(Fields.field?_eq_none_iff _ _).mp place.before_field?,
        (Fields.field?_eq_none_iff _ _).mp (lacks place.after_field?)⟩
    · simp [fill, Table.put_append, has, held]

/-- A value put under the name comes to the place, or to the end if the place is empty. -/
theorem put_fill (v : Option Value) (w : Value) : ∃ next : Place name,
    next.fill v = place.fill v ∧ Table.put (place.fill v) (.str name) w = next.fill (some w) := by
  have before : Table.has place.before (.str name) = false := by
    rw [Table.has, Option.isSome_eq_false_iff, Option.isNone_iff_eq_none]
    exact place.before_field?
  cases v with
  | some u =>
      exact ⟨place, rfl, by simp [fill, Table.put_append, before, Table.put, Scalar.beq_str_iff]⟩
  | none =>
      have after : Table.has place.after (.str name) = false := by
        rw [Table.has, Option.isSome_eq_false_iff, Option.isNone_iff_eq_none]
        exact place.after_field?
      refine ⟨⟨place.before ++ place.after, [], by simpa using place.apart⟩, by simp [fill], ?_⟩
      have last : Table.put place.after (.str name) w = place.after ++ [(.str name, w)] := by
        simpa [after, Table.put] using Table.put_append place.after [] (.str name) w
      simp [fill, Table.put_append, before, last]

theorem enter_fill {e : Scalar × Value} (spares : ∀ key, e.1 = .str key → fieldOf key ≠ name)
    {v : Option Value} {merged : Fields} (h : (place.fill v).enter e = .ok merged) :
    ∃ next : Place name, merged = next.fill v ∧ ∀ u, (place.fill u).enter e = .ok (next.fill u) := by
  obtain ⟨key, w⟩ := e
  cases key with
  | str key =>
      have other := spares key rfl
      simp only [Fields.enter, place.field?_fill_of_ne other] at h ⊢
      match hentered : Value.enter _ key w, h with
      | .ok entered, h =>
          cases h
          obtain ⟨next, hput⟩ := place.put_fill_of_ne other entered
          exact ⟨next, hput v, fun u => by simp only [Except.map, hput u]⟩
  | _ => cases h

/-- What spares a field merges around it, whatever the field holds. -/
theorem merge_fill {entries : List (Scalar × Value)} (spares : Fields.Spares name entries)
    {v : Option Value} {merged : Fields} (h : (place.fill v).merge entries = .ok merged) :
    ∃ next : Place name, merged = next.fill v ∧ ∀ u, (place.fill u).merge entries = .ok (next.fill u) := by
  simp only [Fields.merge_eq_foldlM] at h ⊢
  induction entries generalizing place with
  | nil =>
      cases h
      exact ⟨place, rfl, fun _ => rfl⟩
  | cons e rest ih =>
      obtain ⟨here, spares⟩ := List.forall_mem_cons.mp spares
      rw [List.foldlM_cons] at h
      obtain ⟨fields, hfields, h⟩ := ok_of_bind_ok h
      obtain ⟨next, rfl, hnext⟩ := place.enter_fill here hfields
      obtain ⟨last, rfl, hlast⟩ := ih next spares h
      refine ⟨last, rfl, fun u => ?_⟩
      rw [List.foldlM_cons, hnext u]
      exact hlast u

end Place

/-- The field of a name stands at one place at most. -/
def Fields.Placed (name : String) (fields : Fields) : Prop :=
  ∃ (place : Place name) (v : Option Value), fields = place.fill v

namespace Fields

variable {name : String}

theorem placed_nil : Placed name [] := ⟨⟨[], [], by simp⟩, none, rfl⟩

theorem Placed.put {fields : Fields} (h : fields.Placed name) (key : String) (w : Value) :
    Placed name (Table.put fields (.str key) w) := by
  obtain ⟨place, v, rfl⟩ := h
  by_cases same : key = name
  · subst same
    obtain ⟨next, -, hput⟩ := place.put_fill v w
    exact ⟨next, _, hput⟩
  · obtain ⟨next, hput⟩ := place.put_fill_of_ne same w
    exact ⟨next, v, hput v⟩

theorem Placed.merge {base merged : Fields} {entries : List (Scalar × Value)} (placed : base.Placed name)
    (h : base.merge entries = .ok merged) : merged.Placed name := by
  rw [merge_eq_foldlM] at h
  refine foldlM_ok (P := Placed name) (fun e fields next hnext placed => ?_) h placed
  obtain ⟨key, v, w, -, rfl⟩ := eq_put_of_enter hnext
  exact placed.put _ w

/-- What an entry that appends to a field makes of a merge: the field holds a list where it held what
was there before the entry, and the rest is the same. -/
theorem merge_marker {base merged : Fields} {marker : String} {pre post : List (Scalar × Value)} {v : Value}
    (placed : base.Placed name) (target : appendTarget? marker = some name)
    (spares : Spares name (pre ++ post))
    (h : base.merge (pre ++ (.str marker, v) :: post) = .ok merged) : ∃ place : Place name,
      merged = place.fill (some (.list ((base.field name).asList ++ v.asList))) ∧
        base.merge (pre ++ post) = .ok (place.fill (base.field? name)) := by
  obtain ⟨place, current, rfl⟩ := placed
  obtain ⟨sparesPre, sparesPost⟩ := List.forall_mem_append.mp spares
  rw [merge_eq_foldlM, List.foldlM_append] at h
  obtain ⟨fields, hpre, h⟩ := ok_of_bind_ok h
  obtain ⟨first, rfl, hfirst⟩ := place.merge_fill sparesPre ((merge_eq_foldlM _ _).trans hpre)
  obtain ⟨second, same, hput⟩ := first.put_fill current (.list ((current.getD .null).asList ++ v.asList))
  have entered : (first.fill current).enter (.str marker, v) =
      .ok (second.fill (some (.list ((current.getD .null).asList ++ v.asList)))) := by
    simp [enter, fieldOf, target, Value.enter, first.field?_fill, Except.map, hput]
  rw [List.foldlM_cons, entered] at h
  obtain ⟨last, rfl, hlast⟩ := second.merge_fill sparesPost ((merge_eq_foldlM _ _).trans h)
  refine ⟨last, by rw [field, place.field?_fill], ?_⟩
  rw [merge_eq_foldlM, List.foldlM_append, hpre, ← same, place.field?_fill]
  exact (merge_eq_foldlM _ _).symm.trans (hlast current)

theorem marked_eq_nil {fields : Fields} (h : fields.field? (name ++ "+") = none) :
    marked name fields = [] := by
  refine List.flatMap_eq_nil_iff.mpr fun e he => ?_
  obtain ⟨key, v⟩ := e
  cases key with
  | str key =>
      have other : appendTarget? key ≠ some name := fun target =>
        (field?_eq_none_iff _ _).mp h _ he (congrArg Scalar.str (eq_of_appendTarget? target))
      simp [other]
  | _ => rfl

end Fields

namespace Place

variable {name : String} (place : Place name) {base merged : Fields}

theorem foldlM_onField_fill (other : String) (current v : Option Value) :
    (place.fill v).foldlM (Fields.onField other) current =
      place.before.foldlM (Fields.onField other) current >>= fun current =>
        (v.toList.map (Scalar.str name, ·)).foldlM (Fields.onField other) current >>= fun current =>
          place.after.foldlM (Fields.onField other) current := by
  simp only [fill, List.foldlM_append]

/-- Over any base, what the place holds makes no difference to the other fields. -/
theorem field?_merge_of_ne (plain : appendTarget? name = none) {v u : Option Value} {merged' : Fields}
    (h : base.merge (place.fill v) = .ok merged) (h' : base.merge (place.fill u) = .ok merged')
    {other : String} (ne : other ≠ name) : merged.field? other = merged'.field? other := by
  have held : ∀ (v : Option Value) (current : Option Value),
      (v.toList.map (Scalar.str name, ·)).foldlM (Fields.onField other) current = .ok current := by
    intro v current
    cases v with
    | none => rfl
    | some v => simp [Fields.onField, fieldOf, plain, Ne.symm ne]
  have view := Fields.field?_merge h other
  have view' := Fields.field?_merge h' other
  rw [foldlM_onField_fill] at view view'
  simp only [held] at view view'
  exact Except.ok.inj (view.symm.trans view')

/-- A value at the place comes over that of the base, and what is appended after it is added. -/
theorem field_merge (plain : appendTarget? name = none) {w : Value}
    (notMapping : ∀ entries, w ≠ .mapping entries) (h : base.merge (place.fill (some w)) = .ok merged) :
    (merged.field name).asList = w.asList ++ Fields.marked name place.after := by
  have view := Fields.field?_merge h name
  rw [foldlM_onField_fill] at view
  obtain ⟨current, -, view⟩ := ok_of_bind_ok view
  obtain ⟨held, hheld, view⟩ := ok_of_bind_ok view
  have replaced : Value.mergeOver current w = .ok w := by
    cases w with
    | mapping entries => exact absurd rfl (notMapping entries)
    | _ => rfl
  have holds : held = some w := by
    simpa [Fields.onField, fieldOf, plain, Value.enter, replaced, Except.map, eq_comm] using hheld
  obtain ⟨last, hlast, adds⟩ := Fields.foldlM_onField_marked
    (fun e he => place.apart e (List.mem_append_right _ he)) held
  obtain rfl := Except.ok.inj (hlast.symm.trans view)
  rw [Fields.field, adds, holds, Option.getD_some]

/-- Where the place is empty, all that is appended is added to the value of the base. -/
theorem field_merge_none (h : base.merge (place.fill none) = .ok merged) :
    (merged.field name).asList = (base.field name).asList ++ Fields.marked name place.before ++
      Fields.marked name place.after := by
  have view := Fields.field?_merge h name
  rw [foldlM_onField_fill] at view
  obtain ⟨current, hcurrent, view⟩ := ok_of_bind_ok view
  obtain ⟨first, hfirst, addsFirst⟩ := Fields.foldlM_onField_marked
    (fun e he => place.apart e (List.mem_append_left _ he)) (base.field? name)
  obtain rfl := Except.ok.inj (hfirst.symm.trans hcurrent)
  obtain ⟨last, hlast, adds⟩ := Fields.foldlM_onField_marked
    (fun e he => place.apart e (List.mem_append_right _ he)) first
  obtain rfl := Except.ok.inj (hlast.symm.trans view)
  rw [Fields.field, adds, addsFirst, Fields.field]

theorem markedAfter_fill (plain : appendTarget? name = none) (w : Value) :
    (place.fill (some w)).markedAfter name = Fields.marked name place.after := by
  have skipped : ∀ e ∈ place.before, (!(e.1 == .str name)) = true := by
    intro e he
    have other := place.apart e (List.mem_append_left _ he)
    simpa [← Bool.not_eq_true, Scalar.beq_str_iff] using other
  have here : (Scalar.str name == .str name) = true := (Scalar.beq_str_iff _ _).mpr rfl
  rw [Fields.markedAfter, fill, List.dropWhile_append_of_pos skipped]
  simp [here, Fields.marked, plain]

theorem marked_eq_nil {v : Option Value} (h : (place.fill v).field? (name ++ "+") = none) :
    Fields.marked name place.before = [] ∧ Fields.marked name place.after = [] := by
  rw [place.field?_fill_of_ne (by simp [String.ext_iff])] at h
  obtain ⟨before, after⟩ := Option.or_eq_none_iff.mp h
  exact ⟨Fields.marked_eq_nil before, Fields.marked_eq_nil after⟩

end Place

end Conveyor
