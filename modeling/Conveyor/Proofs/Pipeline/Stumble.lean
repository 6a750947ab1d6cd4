import Conveyor.Proofs.Effect
import Conveyor.Proofs.Pipeline.Template
import Mathlib.Logic.Relation

/-!
Blocks whose fields cannot be merged. A field whose name is no text stops the resolution of every block
that leads to it, and what was resolved before makes no difference: from each block the resolution
goes on to the first template that has no fields, and where none is left, merging fails.
-/

namespace Conveyor

/-- The errors that loading is there to raise: a definition that is malformed, and a reference to
something that is not there. -/
def LoadError.IsDeclared : LoadError → Prop
  | .definition _ | .reference _ => True
  | .merge _ | .value _ => False

instance : DecidablePred LoadError.IsDeclared
  | .definition _ | .reference _ => .isTrue trivial
  | .merge _ | .value _ => .isFalse id

@[match_pattern] def LoadError.keyNotText (key : Scalar) : LoadError := .merge (.keyNotText key)

namespace Blocks

open Relation

/-- The first template of a block that has no fields: the resolution of the block ends as its does. -/
def GoesOnTo (blocks : Blocks) (name parent : String) : Prop :=
  ComesTo blocks name parent ∧ ∀ fields, ¬Expands blocks parent fields

/-- The resolution of a block ends where a field whose name is no text is merged. -/
def Stumbles (blocks : Blocks) (name : String) (key : Scalar) : Prop :=
  ∃ last, ReflTransGen (GoesOnTo blocks) name last ∧ Clashes blocks last (.keyNotText key)

/-- What a block that has no fields is complained of for. -/
structure Complains (blocks : Blocks) (name : String) (e : LoadError) : Prop where
  fieldless : ∀ fields, ¬Expands blocks name fields
  kind : e.IsDeclared ∨ ∃ key, e = .keyNotText key
  stumbles : ∀ key, e = .keyNotText key ↔ Stumbles blocks name key

section

variable {blocks : Blocks} {name p : String} {e : LoadError}

theorem expands_iff {fields : Fields} : Expands blocks name fields ↔
    ∃ block parents merged, Declares blocks name block parents ∧ Gathered blocks parents merged ∧
      overlay merged (ownFields block) = .ok fields := by
  constructor
  · rintro ⟨declares, parents, merge, own⟩
    exact ⟨_, _, _, declares, ⟨_, rfl, parents, merge⟩, own⟩
  · rintro ⟨block, parents, merged, declares, ⟨inherited, rfl, each, merge⟩, own⟩
    exact .block declares each merge own

theorem Gathered.unique {parents : List String} {merged merged' : Fields}
    (h : Gathered blocks parents merged) (h' : Gathered blocks parents merged') : merged = merged' := by
  obtain ⟨inherited, rfl, each, merge⟩ := h
  obtain ⟨inherited', names, each', merge'⟩ := h'
  obtain rfl := eq_of_map_fst_eq names fun e he fields he' => (each' e he).unique (each _ he')
  exact Except.ok.inj (merge.symm.trans merge')

theorem Gathered.before {before after : List String} {merged : Fields}
    (h : Gathered blocks (before ++ after) merged) : ∃ merged, Gathered blocks before merged := by
  obtain ⟨inherited, names, each, merge⟩ := h
  obtain ⟨first, second, rfl, rfl, rfl⟩ := List.map_eq_append_iff.mp names
  rw [List.map_append, List.foldlM_append] at merge
  obtain ⟨merged, merge, -⟩ := ok_of_bind_ok merge
  exact ⟨merged, first, rfl, fun e he => each e (List.mem_append_left _ he), merge⟩

theorem gathered_concat_iff {before : List String} {merged' : Fields} :
    Gathered blocks (before ++ [p]) merged' ↔ ∃ merged fields, Gathered blocks before merged ∧
      Expands blocks p fields ∧ overlay merged fields = .ok merged' := by
  constructor
  · rintro ⟨inherited, names, each, merge⟩
    obtain ⟨first, second, rfl, rfl, hsecond⟩ := List.map_eq_append_iff.mp names
    obtain ⟨⟨_, fields⟩, rfl, rfl⟩ := List.map_eq_singleton_iff.mp hsecond
    rw [List.map_append, List.foldlM_append] at merge
    obtain ⟨merged, merge, last⟩ := ok_of_bind_ok merge
    refine ⟨merged, fields, ⟨first, rfl, fun e he => each e (List.mem_append_left _ he), merge⟩,
      each _ (by simp), ?_⟩
    simpa using last
  · rintro ⟨merged, fields, gathered, expands, merge⟩
    exact gathered.append expands merge

theorem Gathered.of_prefix {before parents : List String} {merged : Fields} (first : before <+: parents)
    (h : Gathered blocks parents merged) : ∃ merged, Gathered blocks before merged := by
  obtain ⟨after, rfl⟩ := first
  exact h.before

/-- Templates that are merged up to one that is not. -/
structure StopsAt (blocks : Blocks) (before : List String) (p : String) : Prop where
  gathered : ∃ merged, Gathered blocks before merged
  stops : ∀ merged, ¬Gathered blocks (before ++ [p]) merged

theorem StopsAt.unique {parents before before' : List String} {p' : String}
    (first : before ++ [p] <+: parents) (first' : before' ++ [p'] <+: parents)
    (h : StopsAt blocks before p) (h' : StopsAt blocks before' p') : before = before' ∧ p = p' := by
  have apart : ∀ {b b' : List String} {q q' : String}, StopsAt blocks b q → StopsAt blocks b' q' →
      b ++ [q] <+: b' ++ [q'] → b ++ [q] = b' ++ [q'] := by
    intro b b' q q' h h' hprefix
    refine (List.prefix_concat_iff.mp hprefix).resolve_right fun inside => ?_
    obtain ⟨merged, gathered⟩ := h'.gathered
    obtain ⟨merged, gathered⟩ := gathered.of_prefix inside
    exact h.stops merged gathered
  have same : before ++ [p] = before' ++ [p'] :=
    (List.prefix_or_prefix_of_prefix first first').elim (apart h h') fun hprefix =>
      (apart h' h hprefix).symm
  simpa using same

theorem StopsAt.not_gathered {parents before : List String} {merged : Fields}
    (first : before ++ [p] <+: parents) (h : StopsAt blocks before p) :
    ¬Gathered blocks parents merged := by
  intro gathered
  obtain ⟨merged, gathered⟩ := gathered.of_prefix first
  exact h.stops merged gathered

namespace GoesOnTo

theorem stopsAt (h : GoesOnTo blocks name p) : ∃ block parents before,
    Declares blocks name block parents ∧ before ++ [p] <+: parents ∧ StopsAt blocks before p := by
  obtain ⟨⟨block, parents, before, merged, declares, first, gathered⟩, fieldless⟩ := h
  refine ⟨block, parents, before, declares, first, ⟨merged, gathered⟩, fun merged' gathered' => ?_⟩
  obtain ⟨_, fields, _, expands, _⟩ := gathered_concat_iff.mp gathered'
  exact fieldless fields expands

theorem unique {p' : String} (h : GoesOnTo blocks name p) (h' : GoesOnTo blocks name p') : p = p' := by
  obtain ⟨block, parents, before, declares, first, stops⟩ := h.stopsAt
  obtain ⟨block', parents', before', declares', first', stops'⟩ := h'.stopsAt
  obtain ⟨-, rfl⟩ := declares.unique declares'
  exact (stops.unique first first' stops').2

theorem not_expands {fields : Fields} (h : GoesOnTo blocks name p) : ¬Expands blocks name fields := by
  intro expands
  obtain ⟨block, parents, before, declares, first, stops⟩ := h.stopsAt
  obtain ⟨block', parents', merged, declares', gathered, -⟩ := expands_iff.mp expands
  obtain ⟨-, rfl⟩ := declares.unique declares'
  exact stops.not_gathered first gathered

end GoesOnTo

namespace Clashes

theorem stops (h : Clashes blocks name e) : ∃ block parents, Declares blocks name block parents ∧
    ((∃ before p merged fields, before ++ [p] <+: parents ∧ StopsAt blocks before p ∧
        Gathered blocks before merged ∧ Expands blocks p fields ∧ overlay merged fields = .error e) ∨
      ∃ merged, Gathered blocks parents merged ∧ overlay merged (ownFields block) = .error e) := by
  cases h with
  | @template block parents before p merged fields _ declares first gathered expands fails =>
      refine ⟨block, parents, declares, .inl ⟨before, p, merged, fields, first, ⟨⟨merged, gathered⟩, ?_⟩,
        gathered, expands, fails⟩⟩
      intro merged' gathered'
      obtain ⟨_, _, again, expands', merges⟩ := gathered_concat_iff.mp gathered'
      obtain rfl := gathered.unique again
      obtain rfl := expands.unique expands'
      cases fails.symm.trans merges
  | own declares gathered fails => exact ⟨_, _, declares, .inr ⟨_, gathered, fails⟩⟩

theorem unique {e' : LoadError} (h : Clashes blocks name e) (h' : Clashes blocks name e') : e = e' := by
  obtain ⟨block, parents, declares, h⟩ := h.stops
  obtain ⟨block', parents', declares', h'⟩ := h'.stops
  obtain ⟨rfl, rfl⟩ := declares.unique declares'
  rcases h with ⟨before, p, merged, fields, first, stops, gathered, expands, fails⟩ |
      ⟨merged, gathered, fails⟩ <;>
    rcases h' with ⟨before', p', merged', fields', first', stops', gathered', expands', fails'⟩ |
      ⟨merged', gathered', fails'⟩
  · obtain ⟨rfl, rfl⟩ := stops.unique first first' stops'
    obtain rfl := gathered.unique gathered'
    obtain rfl := expands.unique expands'
    exact Except.error.inj (fails.symm.trans fails')
  · exact absurd gathered' (stops.not_gathered first)
  · exact absurd gathered (stops'.not_gathered first')
  · obtain rfl := gathered.unique gathered'
    exact Except.error.inj (fails.symm.trans fails')

theorem not_expands {fields : Fields} (h : Clashes blocks name e) : ¬Expands blocks name fields := by
  intro expands
  obtain ⟨block, parents, declares, h⟩ := h.stops
  obtain ⟨block', parents', merged', declares', gathered', own⟩ := expands_iff.mp expands
  obtain ⟨rfl, rfl⟩ := declares.unique declares'
  rcases h with ⟨before, p, -, -, first, stops, -⟩ | ⟨merged, gathered, fails⟩
  · exact stops.not_gathered first gathered'
  · obtain rfl := gathered.unique gathered'
    cases fails.symm.trans own

theorem not_goesOnTo (h : Clashes blocks name e) : ¬GoesOnTo blocks name p := by
  intro onward
  obtain ⟨block, parents, declares, h⟩ := h.stops
  obtain ⟨block', parents', before', declares', first', stops'⟩ := onward.stopsAt
  obtain ⟨-, rfl⟩ := declares.unique declares'
  rcases h with ⟨before, q, merged, fields, first, stops, -, expands, -⟩ | ⟨merged, gathered, -⟩
  · obtain ⟨rfl, rfl⟩ := stops.unique first first' stops'
    exact onward.2 fields expands
  · exact stops'.not_gathered first' gathered

end Clashes

namespace Stumbles

variable {key : Scalar}

theorem not_expands {fields : Fields} (h : Stumbles blocks name key) : ¬Expands blocks name fields := by
  obtain ⟨last, walk, clash⟩ := h
  rcases walk.cases_head with rfl | ⟨p, onward, -⟩
  · exact clash.not_expands
  · exact onward.not_expands

/-- A block stumbles as the template does that its resolution goes on to. -/
theorem goesOnTo_iff (onward : GoesOnTo blocks name p) :
    Stumbles blocks name key ↔ Stumbles blocks p key := by
  constructor
  · rintro ⟨last, walk, clash⟩
    rcases walk.cases_head with rfl | ⟨q, onward', walk⟩
    · exact absurd onward clash.not_goesOnTo
    · rw [onward.unique onward']
      exact ⟨last, walk, clash⟩
  · rintro ⟨last, walk, clash⟩
    exact ⟨last, .head onward walk, clash⟩

theorem clashes_iff (clash : Clashes blocks name e) :
    Stumbles blocks name key ↔ e = .keyNotText key := by
  constructor
  · rintro ⟨last, walk, clash'⟩
    rcases walk.cases_head with rfl | ⟨q, onward, -⟩
    · exact clash.unique clash'
    · exact absurd onward clash.not_goesOnTo
  · rintro rfl
    exact ⟨name, .refl, clash⟩

theorem declared (h : Stumbles blocks name key) : ∃ block parents, Declares blocks name block parents := by
  obtain ⟨last, walk, clash⟩ := h
  rcases walk.cases_head with rfl | ⟨p, onward, -⟩
  · obtain ⟨block, parents, declares, -⟩ := clash.stops
    exact ⟨block, parents, declares⟩
  · obtain ⟨block, parents, -, declares, -⟩ := onward.stopsAt
    exact ⟨block, parents, declares⟩

/-- A resolution that goes round never comes to an end. -/
theorem not_of_cycle (cycle : TransGen (GoesOnTo blocks) name name) : ¬Stumbles blocks name key := by
  rintro ⟨last, walk, clash⟩
  have around : TransGen (GoesOnTo blocks) last last := by
    clear clash
    induction walk with
    | refl => exact cycle
    | tail _ step ih =>
        obtain ⟨q, step', back⟩ := TransGen.head'_iff.mp ih
        rw [step.unique step']
        exact .tail' back step'
  obtain ⟨p, onward, -⟩ := TransGen.head'_iff.mp around
  exact clash.not_goesOnTo onward

end Stumbles

theorem fieldless_of_reaches_cycle {other : String} (cycle : TransGen (ComesTo blocks) other other)
    (reaches : ReflTransGen (ComesTo blocks) name other) (fields : Fields) : ¬Expands blocks name fields :=
  fun expands =>
    have along : ComesTo blocks ≤ Extends blocks := fun _ _ => ComesTo.extends
    expands.resolvable.acyclic other (ReflTransGen.mono along _ _ reaches) (TransGen.mono along _ _ cycle)

theorem goesOnTo_cycle (cycle : TransGen (ComesTo blocks) name name) :
    TransGen (GoesOnTo blocks) name name := by
  have onward : ∀ {n m : String}, ComesTo blocks n m → ReflTransGen (ComesTo blocks) m name →
      GoesOnTo blocks n m := fun comes reaches => ⟨comes, fieldless_of_reaches_cycle cycle reaches⟩
  -- each block on the way round leads back to the cycle, so it has no fields
  have back : ∀ {n : String}, TransGen (ComesTo blocks) n name → TransGen (GoesOnTo blocks) n name := by
    intro n walk
    induction walk using TransGen.head_induction_on with
    | single step => exact .single (onward step .refl)
    | head step walk ih => exact .head (onward step walk.to_reflTransGen) ih
  exact back cycle

theorem transGen_of_isChain {r : String → String → Prop} {chain : List String}
    (walk : (chain ++ [name]).IsChain r) (inChain : name ∈ chain) : TransGen r name name :=
  (List.pairwise_append.mp ((walk.imp fun _ _ => TransGen.single).pairwise)).2.2 name inChain name (by simp)

theorem overlay_ends (base override : Fields) :
    (∃ merged, overlay base override = .ok merged ∧ ∀ key, (∀ s, key ≠ .str s) →
        Fields.Spells key merged → Fields.Spells key base ∨ Fields.Spells key override) ∨
      ∃ key, overlay base override = .error (.keyNotText key) ∧ (∀ s, key ≠ .str s) ∧
        Fields.Spells key override := by
  have ends := Fields.merge_ends base override
  unfold overlay
  cases hmerge : Fields.merge base override with
  | ok merged =>
      rw [hmerge] at ends
      obtain ⟨kept⟩ | _ := ends
      exact .inl ⟨merged, rfl, kept⟩
  | error e =>
      rw [hmerge] at ends
      obtain _ | ⟨notText, spelled⟩ := ends
      exact .inr ⟨_, rfl, notText, spelled⟩

theorem overlay_error {base override : Fields} (h : overlay base override = .error e) :
    ∃ key, e = .keyNotText key ∧ (∀ s, key ≠ .str s) ∧ Fields.Spells key override := by
  rcases overlay_ends base override with ⟨merged, merges, -⟩ | ⟨key, fails, found⟩
  · cases merges.symm.trans h
  · exact ⟨key, Except.error.inj (h.symm.trans fails), found⟩

theorem overlay_spells {base override merged : Fields} (h : overlay base override = .ok merged)
    {key : Scalar} (notText : ∀ s, key ≠ .str s) (spells : Fields.Spells key merged) :
    Fields.Spells key base ∨ Fields.Spells key override := by
  rcases overlay_ends base override with ⟨merged', merges, kept⟩ | ⟨key, fails, -⟩
  · obtain rfl := Except.ok.inj (h.symm.trans merges)
    exact kept key notText spells
  · cases h.symm.trans fails

theorem Clashes.keyNotText (h : Clashes blocks name e) : ∃ key, e = .keyNotText key := by
  cases h with
  | template _ _ _ _ fails | own _ _ fails =>
      obtain ⟨key, rfl, -⟩ := overlay_error fails
      exact ⟨key, rfl⟩

theorem complains_explains : Explains blocks (ComesTo blocks) fun _ => Complains blocks where
  link comes := comes
  cycle walk inChain := by
    have cycle := transGen_of_isChain walk inChain
    exact ⟨fieldless_of_reaches_cycle cycle .refl, .inl trivial, fun key =>
      iff_of_false nofun (Stumbles.not_of_cycle (goesOnTo_cycle cycle))⟩
  malformed {_ name block} get bad := by
    have undeclared : ∀ block parents, ¬Declares blocks name block parents := by
      intro block' parents declares
      obtain rfl := Option.some.inj (get.symm.trans declares.get)
      exact bad parents declares.names
    refine ⟨fun fields expands => ?_, .inl trivial, fun key => iff_of_false nofun fun stumbles => ?_⟩
    · obtain ⟨block, parents, _, declares, _⟩ := expands_iff.mp expands
      exact undeclared block parents declares
    · obtain ⟨block, parents, declares⟩ := stumbles.declared
      exact undeclared block parents declares
  missing {_ name p} comes absent := by
    have undeclared : ∀ block parents, ¬Declares blocks p block parents := fun block _ declares =>
      absent ((Table.mem_keys_iff blocks p).mpr ⟨block, declares.get⟩)
    have onward : GoesOnTo blocks name p := by
      refine ⟨comes, fun fields expands => ?_⟩
      obtain ⟨block, parents, _, declares, _⟩ := expands_iff.mp expands
      exact undeclared block parents declares
    refine ⟨fun fields => onward.not_expands, .inl trivial, fun key =>
      iff_of_false nofun fun stumbles => ?_⟩
    obtain ⟨block, parents, declares⟩ := ((Stumbles.goesOnTo_iff onward).mp stumbles).declared
    exact undeclared block parents declares
  clash clash := ⟨fun _ => clash.not_expands, .inr clash.keyNotText, fun _ =>
    (Stumbles.clashes_iff clash).symm⟩
  below comes complains := by
    have onward := And.intro comes complains.fieldless
    exact ⟨fun _ => GoesOnTo.not_expands onward, complains.kind, fun key =>
      (complains.stumbles key).trans (Stumbles.goesOnTo_iff onward).symm⟩

/-- Whatever was resolved before, a resolution ends in the fields of the block, or in a complaint that
is the same every time as far as it is not declared. -/
theorem complains_resolve {known : Resolved} (remembered : Remembered blocks known)
    (there : name ∈ blocks.keys) :
    Answers blocks (Expands blocks name) (Complains blocks name) (blocks.resolve name [] known) :=
  complains_explains.answers remembered there (by simp)

/-- A key that is written in a block, or in one that it reaches. -/
def Writes (blocks : Blocks) (name : String) (key : Scalar) : Prop :=
  ∃ other block, ReflTransGen (Extends blocks) name other ∧ blocks.get? other = some block ∧
    Fields.Spells key block

section

variable {key : Scalar}

theorem Writes.of_parent (extends_ : Extends blocks name p) (h : Writes blocks p key) :
    Writes blocks name key := by
  obtain ⟨other, block, reached, found⟩ := h
  exact ⟨other, block, .head extends_ reached, found⟩

theorem foldlM_overlay_spells {inherited : List Fields} {base merged : Fields}
    (h : inherited.foldlM overlay base = .ok merged) (notText : ∀ s, key ≠ .str s)
    (spells : Fields.Spells key merged) :
    Fields.Spells key base ∨ ∃ fields ∈ inherited, Fields.Spells key fields := by
  induction inherited generalizing base with
  | nil =>
      cases h
      exact .inl spells
  | cons f rest ih =>
      rw [List.foldlM_cons] at h
      obtain ⟨next, hnext, h⟩ := ok_of_bind_ok h
      rcases ih h with spells | ⟨fields, hfields, spells⟩
      · exact (overlay_spells hnext notText spells).imp id fun spells => ⟨f, by simp, spells⟩
      · exact .inr ⟨fields, List.mem_cons_of_mem _ hfields, spells⟩

theorem Expands.writes {fields : Fields} (h : Expands blocks name fields) (notText : ∀ s, key ≠ .str s)
    (spells : Fields.Spells key fields) : Writes blocks name key := by
  induction h with
  | @block name block inherited merged fields declares _ merge own ih =>
      rcases overlay_spells own notText spells with spells | spells
      · rcases foldlM_overlay_spells merge notText spells with spells | ⟨_, hf, spells⟩
        · cases spells
        · obtain ⟨e, he, rfl⟩ := List.mem_map.mp hf
          have extends_ : Extends blocks name e.1 :=
            ⟨block, _, declares, List.mem_map.mpr ⟨e, he, rfl⟩⟩
          exact (ih e he spells).of_parent extends_
      · exact ⟨name, block, .refl, declares.get, spells.of_erase⟩

theorem Clashes.writes (h : Clashes blocks name (.keyNotText key)) :
    (∀ s, key ≠ .str s) ∧ Writes blocks name key := by
  cases h with
  | @template _ _ _ p _ _ _ declares first _ expands fails =>
      obtain ⟨_, same, notText, spells⟩ := overlay_error fails
      cases same
      have extends_ : Extends blocks name p := ⟨_, _, declares, first.subset (by simp)⟩
      exact ⟨notText, (expands.writes notText spells).of_parent extends_⟩
  | own declares _ fails =>
      obtain ⟨_, same, notText, spells⟩ := overlay_error fails
      cases same
      exact ⟨notText, name, _, .refl, declares.get, spells.of_erase⟩

theorem Stumbles.writes (h : Stumbles blocks name key) :
    (∀ s, key ≠ .str s) ∧ Writes blocks name key := by
  obtain ⟨last, walk, clash⟩ := h
  obtain ⟨notText, other, block, reached, found⟩ := clash.writes
  have along : GoesOnTo blocks ≤ Extends blocks := fun _ _ h => h.1.extends
  exact ⟨notText, other, block, (ReflTransGen.mono along _ _ walk).trans reached, found⟩

end

end

end Blocks

end Conveyor
