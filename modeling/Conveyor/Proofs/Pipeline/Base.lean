import Conveyor.Pipeline.Builder
import Conveyor.Proofs.Value.Append

/-!
Jobs over a base. What a job is not given it has from its base, all but its stage and whether it may fail:
these are the standard ones, whatever the base has.
-/

namespace Conveyor

namespace Table

variable {α : Type}

theorem str_beq_iff (name : String) (key : Scalar) : (Scalar.str name == key) = true ↔ key = .str name := by
  change Scalar.sameKey (.str name) key = true ↔ _
  cases key with
  | str other => simpa [Scalar.sameKey] using eq_comm
  | _ => simp [Scalar.sameKey, Scalar.int?]

/-- Numbers that are equal are one key, but a text is the same key as itself alone. -/
theorem beq_str_congr {k key : Scalar} (same : (k == key) = true) (name : String) :
    (k == .str name) = (key == .str name) := by
  rw [Bool.eq_iff_iff, Scalar.beq_str_iff, Scalar.beq_str_iff]
  constructor
  · rintro rfl
    exact (str_beq_iff name key).mp same
  · rintro rfl
    exact (Scalar.beq_str_iff k name).mp same

theorem get?_put_text (t : Table Scalar α) (key : Scalar) (a : α) (name : String) :
    (t.put key a).get? (.str name) = if key == .str name then some a else t.get? (.str name) := by
  induction t with
  | nil => rfl
  | cons e rest ih =>
      obtain ⟨k, b⟩ := e
      unfold put
      by_cases same : (k == key) = true
      · rw [if_pos same, get?, get?, beq_str_congr same]
        split <;> rfl
      · rw [if_neg same, get?, get?, ih]
        by_cases here : (k == .str name) = true
        · have other : ¬(key == .str name) = true := fun there => same <| by
            rw [(Scalar.beq_str_iff key name).mp there]
            exact here
          rw [if_pos here, if_neg other, if_pos here]
        · rw [if_neg here, if_neg here]

/-- Of the entries that are put under a name the last one counts. -/
theorem get?_putAll_text (t : Table Scalar α) (entries : List (Scalar × α)) (name : String) :
    (t.putAll entries).get? (.str name) =
      (Table.get? entries.reverse (.str name)).or (t.get? (.str name)) := by
  induction entries generalizing t with
  | nil => rfl
  | cons e rest ih =>
      have unfolded : t.putAll (e :: rest) = (t.put e.1 e.2).putAll rest := rfl
      rw [unfolded, ih, get?_put_text, List.reverse_cons, get?_append, Option.or_assoc, get?]
      split <;> rfl

theorem get?_map {β : Type} (f : α → β) (t : Table Scalar α) (key : Scalar) :
    get? (t.map fun (k, a) => (k, f a)) key = (t.get? key).map f := by
  induction t with
  | nil => rfl
  | cons e rest ih =>
      rw [List.map_cons, get?, get?, ih]
      split <;> rfl

end Table

namespace Build

/-- A base with what a job is given in the place of what the base has. -/
def JobArguments.over (a : JobArguments) (base : Job) : Job where
  name := a.name
  stage := a.stage.getD base.stage
  script := if a.script.isEmpty then base.script else a.script
  beforeScript := a.beforeScript.getD base.beforeScript
  cache := a.cache.or base.cache
  trigger := a.trigger.or base.trigger
  bindings := base.bindings.putAll ((a.bindings.getD []).map fun (key, v) => (key, v.text))
  templates := base.templates
  allowFailure := a.allowFailure.getD base.allowFailure

theorem job_ok {d : JobDraft} {base : Option Job} {j : Job} (built : job d base = .ok j) :
    j.script ≠ [] ∧ j.templates = [] := by
  unfold job at built
  extract_lets script at built
  split at built
  · cases built
  · rename_i filled
    cases built
    exact ⟨by simpa using filled, rfl⟩

theorem job_over {a : JobArguments} {base : Job} (script : base.script ≠ [])
    (templates : base.templates = []) : job a.draft (some base) = .ok { a.over base with
      stage := a.stage.getD defaultJobStage, allowFailure := a.allowFailure.getD false } := by
  have given : (if a.script.isEmpty then base.script else a.script) ≠ [] := by
    split
    · exact script
    · simpa using ‹¬a.script.isEmpty = true›
  unfold job
  extract_lets used
  have same : used = if a.script.isEmpty then base.script else a.script := rfl
  rw [if_neg (by simpa [same] using given), same]
  cases base with
  | mk => cases templates; rfl

theorem getD_eq_getD_iff {α : Type} {given : Option α} {standard inherited : α} :
    given.getD standard = given.getD inherited ↔ (given = none → inherited = standard) := by
  cases given with
  | none => simp [eq_comm]
  | some => simp

/-- A job over a base is built of what it is given and else of what the base has, but for the stage and
whether it may fail. So it is as its base makes it just where each of the two is given, or is the standard
one in the base. -/
theorem base_template_iff {d : JobDraft} {base? : Option Job} {base : Job} (built : job d base? = .ok base)
    (a : JobArguments) : ∃ j, job a.draft (some base) = .ok j ∧
      j = { a.over base with
        stage := a.stage.getD defaultJobStage, allowFailure := a.allowFailure.getD false } ∧
      (j = a.over base ↔ (a.stage = none → base.stage = defaultJobStage) ∧
        (a.allowFailure = none → base.allowFailure = false)) ∧
      ∀ name, j.bindings.get? (.str name) = (((Table.get? (a.bindings.getD []).reverse (.str name)).map
        Value.text).or (base.bindings.get? (.str name))) := by
  obtain ⟨script, templates⟩ := job_ok built
  refine ⟨_, job_over script templates, rfl, ?_, fun name => ?_⟩
  · rw [Job.mk.injEq]
    simp only [JobArguments.over, true_and]
    exact and_congr getD_eq_getD_iff getD_eq_getD_iff
  · rw [JobArguments.over, Table.get?_putAll_text, ← List.map_reverse, Table.get?_map]

/-- A base in a stage of its own that may fail. -/
def sampleBase : JobDraft where
  name := ".base"
  script := ["make"]
  stage := "lint"
  bindings := [(.str "A", "1"), (.str "B", "2")]
  allowFailure := true

/-- A job with nothing of its own but a stage, that it may not fail, and one variable. -/
def sampleArguments : JobArguments where
  name := "j"
  stage := some "lint"
  bindings := some [(.str "B", .int 3)]
  allowFailure := some false

theorem base_template_sample : ∃ base j, job sampleBase none = .ok base ∧
    job sampleArguments.draft (some base) = .ok j ∧ j = sampleArguments.over base ∧
    j.script = ["make"] ∧ j.bindings.get? (.str "A") = some "1" ∧ j.bindings.get? (.str "B") = some "3" := by
  have built := (rfl : job sampleBase none = .ok _)
  obtain ⟨j, run, -, same, bindings⟩ := base_template_iff built sampleArguments
  obtain rfl := same.mpr ⟨fun missing => (nomatch missing), fun missing => (nomatch missing)⟩
  exact ⟨_, _, built, run, rfl, rfl, bindings "A", bindings "B"⟩

theorem base_loses_stage : ¬∀ (d : JobDraft) (base? : Option Job) (base : Job) (a : JobArguments) (j : Job),
    job d base? = .ok base → job a.draft (some base) = .ok j → j = a.over base := by
  intro always
  have same := always sampleBase none _ { name := "j" } _ rfl rfl
  exact absurd (congrArg Job.stage same) (by decide)

end Build

end Conveyor
