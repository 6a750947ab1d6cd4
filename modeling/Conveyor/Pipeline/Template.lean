import Conveyor.Pipeline.Error

/-!
Blocks and the templates that they extend. A block is resolved by merging its resolved templates in
the order in which it names them and then its own fields. `Resolver.resolve` keeps what it has
resolved; the chain of blocks under resolution shows a cycle, and bounds the recursion.
-/

namespace Conveyor

abbrev Blocks := Table String Fields

/-- Blocks whose name starts so are templates and not jobs. -/
def isTemplate (name : String) : Bool := name.startsWith "."

namespace Blocks

def templatesOf (name : String) (block : Fields) : Except LoadError (List String) :=
  match block.field "extends" with
  | .null => .ok []
  | .str parent => .ok [parent]
  | .list items =>
    match items.mapM fun | .str s => some s | _ => none with
    | some parents => .ok parents
    | none => .error (DefinitionError.badTemplates name)
  | _ => .error (DefinitionError.badTemplates name)

def ownFields (block : Fields) : Fields := block.erase (.str "extends")

def overlay (base override : Fields) : Except LoadError Fields :=
  match base.merge override with
  | .ok merged => .ok merged
  | .error e => .error (.merge e)

/-- The blocks that are not under resolution. -/
def outside (blocks : Blocks) (chain : List String) : List String :=
  blocks.keys.filter fun n => !chain.contains n

theorem mem_keys_of_get? {blocks : Blocks} {name : String} {b : Fields}
    (h : blocks.get? name = some b) : name ∈ blocks.keys := by
  induction blocks with
  | nil => simp [Table.get?] at h
  | cons e rest ih =>
      obtain ⟨k, v⟩ := e
      simp only [Table.get?] at h
      split at h
      · rename_i hk
        simp [Table.keys, eq_of_beq hk]
      · have := ih h
        simp only [Table.keys] at this ⊢
        exact List.mem_cons_of_mem _ this

theorem outside_lt (blocks : Blocks) (chain : List String) (name : String)
    (hmem : name ∈ blocks.keys) (hnew : chain.contains name = false) :
    (blocks.outside (chain ++ [name])).length < (blocks.outside chain).length := by
  have hsub : blocks.outside (chain ++ [name]) =
      (blocks.outside chain).filter fun n => !(n == name) := by
    simp only [outside, List.filter_filter]
    congr 1
    funext n
    by_cases h : n = name <;> simp [h]
  rw [hsub]
  apply List.length_filter_lt_length_iff_exists.2
  exact ⟨name, by simp [outside, hmem] at hnew ⊢; exact hnew, by simp⟩

end Blocks

abbrev Resolved := Table String Fields

namespace Blocks

/-- Resolves a block: its fields or what is wrong, and what is known afterwards. A name that is no
block has no fields. -/
def resolve (blocks : Blocks) (name : String) (chain : List String) (known : Resolved) :
    Except LoadError Fields × Resolved :=
  match known.get? name with
  | some fields => (.ok fields, known)
  | none =>
    if _hnew : chain.contains name = true then
      (.error (DefinitionError.templateCycle (chain ++ [name])), known)
    else
      match _hblock : blocks.get? name with
      | none => (.ok [], known)
      | some block =>
        match templatesOf name block with
        | .error e => (.error e, known)
        | .ok parents =>
          let step (acc : Except LoadError Fields × Resolved) (parent : String) :=
            match acc with
            | (.error e, known) => (.error e, known)
            | (.ok merged, known) =>
              if blocks.has parent then
                match resolve blocks parent (chain ++ [name]) known with
                | (.error e, known) => (.error e, known)
                | (.ok fields, known) => (overlay merged fields, known)
              else
                (.error (.reference ⟨name, .template, parent,
                  blocks.keys.filter isTemplate⟩), known)
          match parents.foldl step (.ok [], known) with
          | (.error e, known) => (.error e, known)
          | (.ok merged, known) =>
            match overlay merged (ownFields block) with
            | .error e => (.error e, known)
            | .ok fields => (.ok fields, known.put name fields)
termination_by (blocks.outside chain).length
decreasing_by
  exact outside_lt blocks chain name (mem_keys_of_get? _hblock) (by simpa using _hnew)

end Blocks

end Conveyor
