import Conveyor.Proofs.Environment.Expansion
import Conveyor.Proofs.Table

/-!
Layers of variables. Assignments are made one after the other, and each value is expanded by what was
merged before it; so the last assignment to a name decides, whatever comes later, and neighbours that
neither share a name nor refer to each other may change places.
-/

namespace Conveyor

namespace Environment

variable {env env' : Environment}

theorem get?_assign (env : Environment) (entry : String × String) (name : String) :
    (env.assign entry).get? name =
      if entry.1 = name then some (env.expand entry.2) else env.get? name := by
  simp [assign, Table.get?_put]

/-- Environments that bind alike do so after the same assignment. -/
theorem assign_congr (alike : ∀ name, env.get? name = env'.get? name) (entry : String × String)
    (name : String) : (env.assign entry).get? name = (env'.assign entry).get? name := by
  rw [get?_assign, get?_assign, expand_congr fun other _ => alike other, alike]

theorem foldl_assign_congr (alike : ∀ name, env.get? name = env'.get? name)
    (entries : List (String × String)) (name : String) :
    (entries.foldl assign env).get? name = (entries.foldl assign env').get? name := by
  induction entries generalizing env env' with
  | nil => exact alike name
  | cons entry rest ih => exact ih (assign_congr alike entry)

/-- What a value does not refer to may be assigned before the value is expanded or after it. -/
theorem expand_assign {entry : String × String} {value : String} (unrelated : ¬ Refers value entry.1) :
    (env.assign entry).expand value = env.expand value := by
  apply expand_congr
  intro name referred
  rw [get?_assign, if_neg]
  rintro rfl
  exact unrelated referred

/-- Assignments that do not look at each other may be made in either order. -/
theorem assign_comm {a b : String × String} (distinct : a.1 ≠ b.1) (ha : ¬ Refers a.2 b.1)
    (hb : ¬ Refers b.2 a.1) (name : String) :
    ((env.assign a).assign b).get? name = ((env.assign b).assign a).get? name := by
  simp only [get?_assign, expand_assign ha, expand_assign hb]
  by_cases first : a.1 = name
  · have second : b.1 ≠ name := fun h => distinct (first.trans h.symm)
    simp [first, second]
  · simp [first]

theorem keys_foldl_assign (env : Environment) (entries : List (String × String)) (name : String) :
    name ∈ (entries.foldl assign env).keys ↔ name ∈ env.keys ∨ name ∈ entries.map (·.1) := by
  induction entries generalizing env with
  | nil => simp
  | cons entry rest ih =>
      have step : name ∈ (env.assign entry).keys ↔ name ∈ env.keys ∨ name = entry.1 := by
        rw [assign, Table.keys_put]
        split
        · constructor
          · exact .inl
          · rintro (h | rfl)
            · exact h
            · assumption
        · simp
      rw [List.foldl_cons, ih, step, List.map_cons, List.mem_cons, or_assoc]

/-- Assignments to other names leave a variable as it is. -/
theorem get?_foldl_assign {entries : List (String × String)} {name : String}
    (absent : name ∉ entries.map (·.1)) (env : Environment) :
    (entries.foldl assign env).get? name = env.get? name := by
  induction entries generalizing env with
  | nil => rfl
  | cons entry rest ih =>
      rw [List.map_cons, List.mem_cons, not_or] at absent
      rw [List.foldl_cons, ih absent.2, get?_assign, if_neg (Ne.symm absent.1)]

theorem merge_append (base : Environment) (before after : List (List (String × String))) :
    base.merge (before ++ after) = (base.merge before).merge after := by
  rw [merge, merge, merge, List.flatten_append, List.foldl_append]

theorem merge_cons (base : Environment) (layer : List (String × String))
    (after : List (List (String × String))) :
    base.merge (layer :: after) = (layer.foldl assign base).merge after := by
  rw [merge, merge, List.flatten_cons, List.foldl_append]

theorem not_mem_flatten {layers : List (List (String × String))} {name : String}
    (absent : ∀ layer ∈ layers, name ∉ layer.map (·.1)) : name ∉ layers.flatten.map (·.1) := by
  intro h
  obtain ⟨entry, hentry, rfl⟩ := List.mem_map.mp h
  obtain ⟨layer, hlayer, hmem⟩ := List.mem_flatten.mp hentry
  exact absent layer hlayer (List.mem_map_of_mem hmem)

/-- Neighbours in a layer that do not look at each other may change places. The merged names are those of
the base and of all layers; a name has the value of its last assignment, expanded by what was merged
before, and one that no layer assigns keeps the value of the base. -/
theorem merge_by_last_assignment (base : Environment) :
    (∀ before pre a b post after, a.1 ≠ b.1 → ¬ Refers a.2 b.1 → ¬ Refers b.2 a.1 → ∀ name,
      (base.merge (before ++ (pre ++ a :: b :: post) :: after)).get? name =
        (base.merge (before ++ (pre ++ b :: a :: post) :: after)).get? name) ∧
    (∀ layers name, name ∈ (base.merge layers).keys ↔
      name ∈ base.keys ∨ ∃ layer ∈ layers, name ∈ layer.map (·.1)) ∧
    (∀ before pre name value post after, name ∉ post.map (·.1) →
      (∀ layer ∈ after, name ∉ layer.map (·.1)) →
      (base.merge (before ++ (pre ++ (name, value) :: post) :: after)).get? name =
        some ((base.merge (before ++ [pre])).expand value)) ∧
    ∀ layers name, (∀ layer ∈ layers, name ∉ layer.map (·.1)) →
      (base.merge layers).get? name = base.get? name := by
  refine ⟨?_, ?_, ?_, ?_⟩
  · intro before pre a b post after distinct ha hb name
    rw [merge_append, merge_append, merge_cons, merge_cons, List.foldl_append, List.foldl_append]
    apply foldl_assign_congr
    intro other
    exact foldl_assign_congr (assign_comm distinct ha hb) post other
  · intro layers name
    rw [merge, keys_foldl_assign]
    simp [List.mem_flatten]
  · intro before pre name value post after last overridden
    rw [merge_append, merge_cons, List.foldl_append, merge, get?_foldl_assign (not_mem_flatten overridden),
      List.foldl_cons, get?_foldl_assign last, get?_assign, if_pos rfl, merge_append, merge_cons]
    rfl
  · intro layers name absent
    exact get?_foldl_assign (not_mem_flatten absent) base

/-- What a pipeline and a job may set over the path and the home of the machine. -/
def sampleBase : Environment := [("PATH", "/bin"), ("HOME", "/root")]

def samplePath : String × String := ("PATH", "/opt:$PATH")

def sampleOutput : String × String := ("OUT", "$HOME/out")

def sampleJob : List (String × String) := [("PATH", "$OUT:$PATH"), ("LATE", "$PATH")]

theorem merge_sampleLayers :
    (∀ name, (sampleBase.merge [[samplePath, sampleOutput], sampleJob]).get? name =
      (sampleBase.merge [[sampleOutput, samplePath], sampleJob]).get? name) ∧
    (sampleBase.merge [[samplePath, sampleOutput], sampleJob]).get? "PATH" = some "/root/out:/opt:/bin" ∧
    (sampleBase.merge [[samplePath, sampleOutput], sampleJob]).get? "HOME" = some "/root" ∧
    "LATE" ∈ (sampleBase.merge [[samplePath, sampleOutput], sampleJob]).keys := by
  obtain ⟨swap, names, last, kept⟩ := merge_by_last_assignment sampleBase
  have apart : ¬ Refers samplePath.2 sampleOutput.1 ∧ ¬ Refers sampleOutput.2 samplePath.1 := by
    have path : segments samplePath.2.toList = [.plain '/', .plain 'o', .plain 'p', .plain 't', .plain ':',
        .reference "PATH".toList "$PATH".toList] := by
      decide +kernel
    have output : segments sampleOutput.2.toList = [.reference "HOME".toList "$HOME".toList, .plain '/',
        .plain 'o', .plain 'u', .plain 't'] := by
      decide +kernel
    constructor
    · rw [refers_iff, path]
      simp [sampleOutput]
    · rw [refers_iff, output]
      simp [samplePath]
  refine ⟨swap [] [] samplePath sampleOutput [] [sampleJob] (by decide) apart.1 apart.2, ?_, ?_, ?_⟩
  · refine (last [[samplePath, sampleOutput]] [] "PATH" "$OUT:$PATH" [("LATE", "$PATH")] []
      (by decide) (by simp)).trans ?_
    exact congrArg some (by decide +kernel)
  · exact kept _ "HOME" (by decide)
  · exact (names _ "LATE").mpr (.inr ⟨sampleJob, by simp, by decide⟩)

end Environment

end Conveyor
