import Conveyor.Pipeline.Template
import Conveyor.Proofs.Table
import Conveyor.Proofs.Value.Merge
import Mathlib.Data.List.Chain
import Mathlib.Logic.Relation

/-!
What a block stands for once its templates are merged. A block can be resolved just where all that it
reaches is there, well formed and free of cycles. Then its fields are those of the recursion that
remembers nothing, whatever was resolved before, and otherwise the complaint names what is wrong.
-/

namespace Conveyor.Blocks

open Relation

/-- The names that an `extends` field gives: none, one, or a list. -/
inductive Names : Value → List String → Prop
  | none : Names .null []
  | one (name : String) : Names (.str name) [name]
  | list (names : List String) : Names (.list (names.map .str)) names

/-- The block of a name, and the names that it extends. -/
structure Declares (blocks : Blocks) (name : String) (block : Fields) (parents : List String) : Prop where
  get : blocks.get? name = some block
  names : Names (block.field "extends") parents

def Extends (blocks : Blocks) (name parent : String) : Prop :=
  ∃ block parents, Declares blocks name block parents ∧ parent ∈ parents

/-- Everything that a block reaches is there and well formed, and extends itself in no way. -/
structure Resolvable (blocks : Blocks) (name : String) : Prop where
  declared : ∀ other, ReflTransGen (Extends blocks) name other →
    ∃ block parents, Declares blocks other block parents
  acyclic : ∀ other, ReflTransGen (Extends blocks) name other → ¬TransGen (Extends blocks) other other

/-- The fields of a block by the recursion that remembers nothing: those of its templates, merged from
left to right, and then its own. -/
inductive Expands (blocks : Blocks) : String → Fields → Prop
  | block {name : String} {block : Fields} {inherited : List (String × Fields)} {merged fields : Fields}
      (declares : Declares blocks name block (inherited.map (·.1)))
      (parents : ∀ e ∈ inherited, Expands blocks e.1 e.2)
      (merge : (inherited.map (·.2)).foldlM overlay [] = .ok merged)
      (own : overlay merged (ownFields block) = .ok fields) : Expands blocks name fields

/-- What is wrong with a block, when the blocks of a chain are under resolution. -/
inductive Blames (blocks : Blocks) (chain : List String) (name : String) : LoadError → Prop
  | malformed {other : String} {block : Fields} (reached : ReflTransGen (Extends blocks) name other)
      (get : blocks.get? other = some block) (bad : ∀ parents, ¬Names (block.field "extends") parents) :
      Blames blocks chain name (DefinitionError.badTemplates other)
  | missing {other parent : String} (reached : ReflTransGen (Extends blocks) name other)
      (extends_ : Extends blocks other parent) (absent : parent ∉ blocks.keys) :
      Blames blocks chain name
        (.reference ⟨other, .template, parent, blocks.keys.filter isTemplate⟩)
  | cycle {path : List String} {last : String} (walk : (path ++ [last]).IsChain (Extends blocks))
      (start : chain ++ [name] <+: path ++ [last]) (closed : last ∈ path) :
      Blames blocks chain name (DefinitionError.templateCycle (path ++ [last]))

/-- Every key in the blocks is a text. -/
def HasTextKeys (blocks : Blocks) : Prop := ∀ e ∈ blocks, Fields.HasTextKeys e.2

/-- What is remembered after calls on blocks of the table, failed ones included. -/
inductive Reached (blocks : Blocks) : Resolved → Prop
  | start : Reached blocks []
  | call {known : Resolved} (before : Reached blocks known) {name : String} (there : name ∈ blocks.keys) :
      Reached blocks (blocks.resolve name [] known).2

theorem Names.unique {v : Value} {names names' : List String} (h : Names v names)
    (h' : Names v names') : names = names' := by
  cases h with
  | none | one => cases h'; rfl
  | list =>
      generalize hv : Value.list _ = w at h'
      cases h' with
      | none | one => cases hv
      | list =>
          have injective : Function.Injective Value.str := fun _ _ h => by cases h; rfl
          exact List.map_injective_iff.mpr injective (Value.list.inj hv)

theorem mapM_eq_some_iff {read : Value → Option String} (hread : ∀ v s, read v = some s ↔ v = .str s)
    {items : List Value} {names : List String} :
    items.mapM read = some names ↔ items = names.map .str := by
  induction items generalizing names with
  | nil => cases names <;> simp
  | cons v rest ih => cases names <;> simp [Option.bind_eq_some_iff, hread, ih]

/-- An `extends` field is read where it gives names, and is complained of where it does not. -/
theorem templatesOf_spec (name : String) (block : Fields) :
    (∃ parents, templatesOf name block = .ok parents ∧ Names (block.field "extends") parents) ∨
      (templatesOf name block = .error (DefinitionError.badTemplates name) ∧
        ∀ parents, ¬Names (block.field "extends") parents) := by
  unfold templatesOf
  generalize block.field "extends" = v
  split
  · exact .inl ⟨_, rfl, .none⟩
  · exact .inl ⟨_, rfl, .one _⟩
  · split
    · rename_i items _ parents h
      obtain rfl := (mapM_eq_some_iff fun v s => by split <;> simp_all [Value.str]).mp h
      exact .inl ⟨_, rfl, .list _⟩
    · rename_i items _ unread
      refine .inr ⟨rfl, fun parents names => ?_⟩
      generalize hv : Value.list items = w at names
      cases names with
      | none | one => cases hv
      | list =>
          have read : some parents = none := by
            rw [← unread, eq_comm]
            exact (mapM_eq_some_iff fun v s => by split <;> simp_all [Value.str]).mpr (Value.list.inj hv)
          cases read
  · rename_i notNull notStr notList
    refine .inr ⟨rfl, fun parents names => ?_⟩
    cases names with
    | none => exact notNull rfl
    | one => exact notStr _ rfl
    | list => exact notList _ rfl

theorem eq_of_map_fst_eq {α : Type u} {β : Type v} {l l' : List (α × β)}
    (names : l.map (·.1) = l'.map (·.1)) (unique : ∀ e ∈ l, ∀ b, (e.1, b) ∈ l' → e.2 = b) : l = l' := by
  refine List.ext_getElem (by simpa using congrArg List.length names) fun i hi hi' => ?_
  have name : l[i].1 = l'[i].1 := by simpa [hi, hi'] using congrArg (·[i]?) names
  exact Prod.ext name (unique _ (List.getElem_mem hi) _ (name ▸ List.getElem_mem hi'))

section

variable {blocks : Blocks} {name : String}

theorem Declares.unique {block block' : Fields} {parents parents' : List String}
    (h : Declares blocks name block parents) (h' : Declares blocks name block' parents') :
    block = block' ∧ parents = parents' := by
  obtain rfl := Option.some.inj (h.get.symm.trans h'.get)
  exact ⟨rfl, h.names.unique h'.names⟩

theorem Declares.resolvable {block : Fields} {parents : List String}
    (declares : Declares blocks name block parents) (below : ∀ p ∈ parents, Resolvable blocks p) :
    Resolvable blocks name := by
  have next : ∀ p, Extends blocks name p → Resolvable blocks p := by
    rintro p ⟨block', parents', declares', hp⟩
    obtain ⟨-, rfl⟩ := declares.unique declares'
    exact below p hp
  refine ⟨fun other reached => ?_, fun other reached => ?_⟩
  · rcases reached.cases_head with rfl | ⟨p, hp, rest⟩
    · exact ⟨block, parents, declares⟩
    · exact (next p hp).declared other rest
  · rcases reached.cases_head with rfl | ⟨p, hp, rest⟩
    · intro cycle
      obtain ⟨p, hp, back⟩ := TransGen.head'_iff.mp cycle
      exact (next p hp).acyclic _ back cycle
    · exact (next p hp).acyclic other rest

namespace Expands

theorem resolvable {fields : Fields} (h : Expands blocks name fields) : Resolvable blocks name := by
  induction h with
  | block declares _ _ _ ih =>
      refine declares.resolvable fun p hp => ?_
      obtain ⟨e, he, rfl⟩ := List.mem_map.mp hp
      exact ih e he

theorem unique {fields fields' : Fields} (h : Expands blocks name fields)
    (h' : Expands blocks name fields') : fields = fields' := by
  induction h generalizing fields' with
  | @block name block inherited merged fields declares _ merge own ih =>
      cases h' with
      | @block _ block' inherited' merged' _ declares' parents' merge' own' =>
          obtain ⟨rfl, names⟩ := declares.unique declares'
          have same : inherited = inherited' := eq_of_map_fst_eq names fun e he fields' he' =>
            ih e he (parents' _ he')
          rw [same] at merge
          obtain rfl := Except.ok.inj (merge.symm.trans merge')
          exact Except.ok.inj (own.symm.trans own')

end Expands

end

theorem overlay_hasTextKeys {base override : Fields} (hbase : Fields.HasTextKeys base)
    (hover : Fields.HasTextKeys override) :
    ∃ merged, overlay base override = .ok merged ∧ Fields.HasTextKeys merged := by
  obtain ⟨merged, hmerge, hmerged⟩ := Fields.merge_hasTextKeys hbase hover
  exact ⟨merged, by rw [overlay, hmerge], hmerged⟩

theorem foldlM_overlay_hasTextKeys {inherited : List Fields}
    (textual : ∀ f ∈ inherited, Fields.HasTextKeys f) {base merged : Fields}
    (hbase : Fields.HasTextKeys base) (h : inherited.foldlM overlay base = .ok merged) :
    Fields.HasTextKeys merged := by
  induction inherited generalizing base with
  | nil => exact Except.ok.inj h ▸ hbase
  | cons f rest ih =>
      obtain ⟨next, hnext, htext⟩ := overlay_hasTextKeys hbase (textual f (by simp))
      rw [List.foldlM_cons, hnext] at h
      exact ih (fun g hg => textual g (List.mem_cons_of_mem _ hg)) htext h

namespace HasTextKeys

variable {blocks : Blocks} {name : String} (textual : blocks.HasTextKeys)
include textual

theorem own {block : Fields} (get : blocks.get? name = some block) :
    Fields.HasTextKeys (ownFields block) :=
  Fields.HasTextKeys.erase (textual _ (Table.mem_of_get?_eq_some get)) _

theorem expands {fields : Fields} (h : Expands blocks name fields) : Fields.HasTextKeys fields := by
  induction h with
  | block declares _ merge own ih =>
      have inherited := foldlM_overlay_hasTextKeys (List.forall_mem_map.mpr ih) Fields.hasTextKeys_nil merge
      obtain ⟨fields, hfields, htext⟩ := overlay_hasTextKeys inherited (textual.own declares.get)
      exact Except.ok.inj (hfields.symm.trans own) ▸ htext

end HasTextKeys

section

variable {blocks : Blocks} {chain : List String} {name : String} {e : LoadError}

theorem Blames.of_parent {parent : String} (extends_ : Extends blocks name parent)
    (h : Blames blocks (chain ++ [name]) parent e) : Blames blocks chain name e := by
  cases h with
  | malformed reached get bad => exact .malformed (.head extends_ reached) get bad
  | missing reached extends' absent => exact .missing (.head extends_ reached) extends' absent
  | cycle walk start closed =>
      exact .cycle walk ((List.prefix_append _ _).trans start) closed

theorem Blames.not_resolvable (h : Blames blocks [] name e) : ¬Resolvable blocks name := by
  intro resolvable
  cases h with
  | malformed reached get bad =>
      obtain ⟨block, parents, declares⟩ := resolvable.declared _ reached
      obtain rfl := Option.some.inj (get.symm.trans declares.get)
      exact bad parents declares.names
  | @missing other parent reached extends_ absent =>
      obtain ⟨block, parents, declares⟩ := resolvable.declared _ (reached.tail extends_)
      exact absent ((Table.mem_keys_iff blocks parent).mpr ⟨block, declares.get⟩)
  | @cycle path last walk start closed =>
      have onward : ∀ n ∈ path, TransGen (Extends blocks) n last := fun n hn =>
        (List.pairwise_append.mp ((walk.imp fun _ _ => TransGen.single).pairwise)).2.2 n hn last (by simp)
      have first : name ∈ path := by
        cases path with
        | nil => cases closed
        | cons n more =>
            have : name = n := by simpa using start
            simp [this]
      exact resolvable.acyclic last (onward name first).to_reflTransGen (onward last closed)

end

/-- All that is remembered is right. -/
def Remembered (blocks : Blocks) (known : Resolved) : Prop :=
  ∀ name fields, known.get? name = some fields → Expands blocks name fields

/-- What a resolution gives: fields or a complaint of the right kind, and what is remembered is right
in both cases. -/
inductive Answers (blocks : Blocks) (right : Fields → Prop) (blame : LoadError → Prop) :
    Except LoadError Fields × Resolved → Prop
  | resolved {fields : Fields} {known : Resolved} (h : right fields) (remembered : Remembered blocks known) :
      Answers blocks right blame (.ok fields, known)
  | complaint {e : LoadError} {known : Resolved} (h : blame e) (remembered : Remembered blocks known) :
      Answers blocks right blame (.error e, known)

section

variable {blocks : Blocks}

theorem Remembered.put {known : Resolved} {name : String} {fields : Fields}
    (remembered : Remembered blocks known) (h : Expands blocks name fields) :
    Remembered blocks (known.put name fields) := by
  intro n f found
  rw [Table.get?_put] at found
  split at found
  · rename_i same
    cases found
    exact eq_of_beq same ▸ h
  · exact remembered n f found

theorem Answers.remembered {right : Fields → Prop} {blame : LoadError → Prop}
    {answer : Except LoadError Fields × Resolved} (h : Answers blocks right blame answer) :
    Remembered blocks answer.2 := by
  cases h <;> assumption

theorem Answers.blame_imp {right : Fields → Prop} {blame blame' : LoadError → Prop}
    (imp : ∀ e, blame e → blame' e) {answer : Except LoadError Fields × Resolved}
    (h : Answers blocks right blame answer) : Answers blocks right blame' answer := by
  cases h with
  | resolved hright remembered => exact .resolved hright remembered
  | complaint hblame remembered => exact .complaint (imp _ hblame) remembered

theorem Answers.andThen (right : Fields → Prop) {right' : Fields → Prop} {blame : LoadError → Prop}
    {answer : Except LoadError Fields × Resolved}
    {next : Fields → Resolved → Except LoadError Fields × Resolved}
    (hnext : ∀ fields known, right fields → Remembered blocks known →
      Answers blocks right' blame (next fields known)) :
    Answers blocks right blame answer →
      Answers blocks right' blame (match answer with
        | (.error e, known) => (.error e, known)
        | (.ok fields, known) => next fields known) := by
  intro h
  cases h with
  | resolved hright remembered => exact hnext _ _ hright remembered
  | complaint hblame remembered => exact .complaint hblame remembered

/-- One parent after the other: a complaint stops the fold, and fields are right for the parents that
they came from. -/
theorem Answers.foldl (right : List String → Fields → Prop) {blame : LoadError → Prop}
    {step : Except LoadError Fields × Resolved → String → Except LoadError Fields × Resolved}
    (failed : ∀ e known p, step (.error e, known) p = (.error e, known)) {done parents : List String}
    (next : ∀ before p fields known, before ++ [p] <+: done ++ parents → right before fields →
      Remembered blocks known → Answers blocks (right (before ++ [p])) blame (step (.ok fields, known) p))
    {acc : Except LoadError Fields × Resolved} (h : Answers blocks (right done) blame acc) :
    Answers blocks (right (done ++ parents)) blame (parents.foldl step acc) := by
  induction parents generalizing done acc with
  | nil => simpa using h
  | cons p rest ih =>
      rw [List.append_cons] at next ⊢
      have one : Answers blocks (right (done ++ [p])) blame (step acc p) := by
        cases h with
        | resolved hright remembered => exact next done p _ _ (List.prefix_append _ _) hright remembered
        | complaint hblame remembered =>
            rw [failed]
            exact .complaint hblame remembered
      exact ih next one

/-- What the parents that are done gave, and what came of merging it. -/
def Gathered (blocks : Blocks) (parents : List String) (merged : Fields) : Prop :=
  ∃ inherited : List (String × Fields), inherited.map (·.1) = parents ∧
    (∀ e ∈ inherited, Expands blocks e.1 e.2) ∧ (inherited.map (·.2)).foldlM overlay [] = .ok merged

theorem Gathered.append {parents : List String} {merged : Fields} (h : Gathered blocks parents merged)
    {p : String} {fields merged' : Fields} (expands : Expands blocks p fields)
    (merge : overlay merged fields = .ok merged') : Gathered blocks (parents ++ [p]) merged' := by
  obtain ⟨inherited, rfl, each, gathered⟩ := h
  refine ⟨inherited ++ [(p, fields)], by simp, ?_, ?_⟩
  · simpa [or_imp, forall_and] using ⟨fun a b h => each (a, b) h, expands⟩
  · rw [List.map_append, List.foldlM_append, gathered]
    change [fields].foldlM overlay merged = .ok merged'
    rw [List.foldlM_cons, merge]
    rfl

theorem Gathered.hasTextKeys (textual : blocks.HasTextKeys) {parents : List String} {merged : Fields}
    (h : Gathered blocks parents merged) : Fields.HasTextKeys merged := by
  obtain ⟨inherited, -, each, gathered⟩ := h
  have texts : ∀ e ∈ inherited, Fields.HasTextKeys e.2 := fun e he => textual.expands (each e he)
  exact foldlM_overlay_hasTextKeys (List.forall_mem_map.mpr texts) Fields.hasTextKeys_nil gathered

/-- The resolution of a block comes to one of its templates: those that it names before are merged. -/
def ComesTo (blocks : Blocks) (name parent : String) : Prop :=
  ∃ block parents before merged, Declares blocks name block parents ∧ before ++ [parent] <+: parents ∧
    Gathered blocks before merged

theorem ComesTo.extends {name parent : String} (h : ComesTo blocks name parent) :
    Extends blocks name parent := by
  obtain ⟨block, parents, before, merged, declares, first, -⟩ := h
  exact ⟨block, parents, declares, first.subset (by simp)⟩

/-- Fields that a block is made of cannot be merged: those of a template, or its own. -/
inductive Clashes (blocks : Blocks) (name : String) : LoadError → Prop
  | template {block : Fields} {parents before : List String} {p : String} {merged fields : Fields}
      {e : LoadError} (declares : Declares blocks name block parents) (first : before ++ [p] <+: parents)
      (gathered : Gathered blocks before merged) (expands : Expands blocks p fields)
      (fails : overlay merged fields = .error e) : Clashes blocks name e
  | own {block : Fields} {parents : List String} {merged : Fields} {e : LoadError}
      (declares : Declares blocks name block parents) (gathered : Gathered blocks parents merged)
      (fails : overlay merged (ownFields block) = .error e) : Clashes blocks name e

/-- A blame that fits whatever a resolution complains of, where the chain of blocks under resolution
goes along a relation. -/
structure Explains (blocks : Blocks) (along : String → String → Prop)
    (blame : List String → String → LoadError → Prop) : Prop where
  link : ∀ {name p}, ComesTo blocks name p → along name p
  cycle : ∀ {chain name}, (chain ++ [name]).IsChain along → name ∈ chain →
    blame chain name (DefinitionError.templateCycle (chain ++ [name]))
  malformed : ∀ {chain name block}, blocks.get? name = some block →
    (∀ parents, ¬Names (block.field "extends") parents) →
      blame chain name (DefinitionError.badTemplates name)
  missing : ∀ {chain name p}, ComesTo blocks name p → p ∉ blocks.keys →
    blame chain name (.reference ⟨name, .template, p, blocks.keys.filter isTemplate⟩)
  clash : ∀ {chain name e}, Clashes blocks name e → blame chain name e
  below : ∀ {chain name p e}, ComesTo blocks name p → blame (chain ++ [name]) p e → blame chain name e

theorem Explains.answers {along : String → String → Prop}
    {blame : List String → String → LoadError → Prop} (explains : Explains blocks along blame)
    {name : String} {chain : List String} {known : Resolved} (remembered : Remembered blocks known)
    (there : name ∈ blocks.keys) (walk : (chain ++ [name]).IsChain along) :
    Answers blocks (Expands blocks name) (blame chain name) (blocks.resolve name chain known) := by
  rw [resolve]
  split
  · rename_i fields found
    exact .resolved (remembered name fields found) remembered
  split
  · rename_i inChain
    exact .complaint (explains.cycle walk (by simpa using inChain)) remembered
  rename_i notInChain
  -- the blocks outside the chain are fewer for each template than for the block
  have fewer := outside_lt blocks chain name there (by simpa using notInChain)
  split
  · rename_i absent
    obtain ⟨block, get⟩ := (Table.mem_keys_iff blocks name).mp there
    cases absent.symm.trans get
  rename_i block get
  rcases templatesOf_spec name block with ⟨parents, read, names⟩ | ⟨unread, bad⟩
  · rw [read]
    have declares : Declares blocks name block parents := ⟨get, names⟩
    refine Answers.andThen (Gathered blocks parents) (fun merged known gathered remembered => ?_) ?_
    · split
      · rename_i own
        exact .complaint (explains.clash (.own declares gathered own)) remembered
      · rename_i fields own
        obtain ⟨inherited, rfl, each, merge⟩ := gathered
        have expands : Expands blocks name fields := .block declares each merge own
        exact .resolved expands (remembered.put expands)
    · have start : Gathered blocks [] [] := ⟨[], rfl, by simp, rfl⟩
      refine Answers.foldl (Gathered blocks) (fun _ _ _ => rfl) ?_ (.resolved start remembered)
      intro before p merged known first gathered remembered
      have comes : ComesTo blocks name p := ⟨block, parents, before, merged, declares, first, gathered⟩
      dsimp only
      split
      · rename_i has
        have thereBelow : p ∈ blocks.keys :=
          (Table.mem_keys_iff blocks p).mpr (Option.isSome_iff_exists.mp has)
        have onward : (chain ++ [name] ++ [p]).IsChain along := by
          simpa using ⟨walk, explains.link comes⟩
        have below := (explains.answers remembered thereBelow onward).blame_imp fun e =>
          explains.below comes
        refine Answers.andThen _ (fun fields known expands remembered => ?_) below
        cases merge : overlay merged fields with
        | ok merged' => exact .resolved (gathered.append expands merge) remembered
        | error e =>
            exact .complaint (explains.clash (.template declares first gathered expands merge)) remembered
      · rename_i absent
        refine .complaint (explains.missing comes fun there => absent ?_) remembered
        exact Option.isSome_iff_exists.mpr ((Table.mem_keys_iff blocks p).mp there)
  · rw [unread]
    exact .complaint (explains.malformed get bad) remembered
termination_by (blocks.outside chain).length
decreasing_by exact fewer

theorem HasTextKeys.not_clashes (textual : blocks.HasTextKeys) {name : String} {e : LoadError} :
    ¬Clashes blocks name e := by
  intro clash
  cases clash with
  | template _ _ gathered expands fails =>
      obtain ⟨merged, merge, -⟩ := overlay_hasTextKeys (gathered.hasTextKeys textual)
        (textual.expands expands)
      cases merge.symm.trans fails
  | own declares gathered fails =>
      obtain ⟨merged, merge, -⟩ := overlay_hasTextKeys (gathered.hasTextKeys textual)
        (textual.own declares.get)
      cases merge.symm.trans fails

theorem HasTextKeys.explains (textual : blocks.HasTextKeys) :
    Explains blocks (Extends blocks) (Blames blocks) where
  link := ComesTo.extends
  cycle walk inChain := .cycle walk (List.prefix_refl _) inChain
  malformed get bad := .malformed .refl get bad
  missing comes absent := .missing .refl comes.extends absent
  clash clash := absurd clash textual.not_clashes
  below comes := Blames.of_parent comes.extends

theorem answers_resolve (textual : blocks.HasTextKeys) {name : String} {chain : List String}
    {known : Resolved} (remembered : Remembered blocks known) (there : name ∈ blocks.keys)
    (walk : (chain ++ [name]).IsChain (Extends blocks)) :
    Answers blocks (Expands blocks name) (Blames blocks chain name) (blocks.resolve name chain known) :=
  textual.explains.answers remembered there walk

theorem Reached.remembered (textual : blocks.HasTextKeys) {known : Resolved}
    (reached : Reached blocks known) : Remembered blocks known := by
  induction reached with
  | start => exact fun _ _ found => nomatch found
  | call _ there ih => exact (answers_resolve textual ih there (by simp)).remembered

end

/-- A block over two templates that share a third, and one that also extends itself. -/
def sampleBlocks : Blocks := [
  (".base", [(.str "script", .list [.str "b"])]),
  (".left", [(.str "extends", .str ".base"), (.str "image", .str "l")]),
  (".right", [(.str "extends", .list [.str ".base"]), (.str "image", .str "r"),
    (.str "script+", .str "r")]),
  ("job", [(.str "extends", .list [.str ".left", .str ".right"]), (.str "stage", .str "s")]),
  (".loop", [(.str "extends", .list [.str "job", .str ".loop"])])]

theorem sampleBlocks_expand : Expands sampleBlocks "job"
    [(.str "script", .list [.str "b", .str "r"]), (.str "image", .str "r"), (.str "stage", .str "s")] := by
  have base : Expands sampleBlocks ".base" [(.str "script", .list [.str "b"])] :=
    @Expands.block _ _ _ [] _ _ ⟨rfl, .none⟩ (by simp) rfl rfl
  have left : Expands sampleBlocks ".left"
      [(.str "script", .list [.str "b"]), (.str "image", .str "l")] :=
    @Expands.block _ _ _ [(".base", _)] _ _ ⟨rfl, .one _⟩ (by simpa using base) rfl rfl
  have right : Expands sampleBlocks ".right"
      [(.str "script", .list [.str "b", .str "r"]), (.str "image", .str "r")] :=
    @Expands.block _ _ _ [(".base", _)] _ _ ⟨rfl, .list [".base"]⟩ (by simpa using base) rfl rfl
  exact @Expands.block _ _ _ [(".left", _), (".right", _)] _ _ ⟨rfl, .list [".left", ".right"]⟩
    (by simpa using ⟨left, right⟩) rfl rfl

end Conveyor.Blocks
