import Conveyor.Proofs.Pipeline.Arrangement
import Conveyor.Proofs.Pipeline.Rules

/-!
Well-formed definitions. A pipeline that was built has its stages at their places, its jobs under names
of their own and each in a declared stage, so that its jobs have an order. A pipeline that was loaded
has one job for each block that is no template, and what these jobs hold has been checked.
-/

namespace Conveyor

theorem canonical_of_mem_kindSet {kinds : List String} {kind : String} (h : kind ∈ kindSet kinds) :
    Kind.canonical kind = kind := by
  obtain ⟨k, -, rfl⟩ := List.mem_map.mp (List.mem_eraseDups.mp h)
  exact Kind.canonical_canonical k

/-- The rule speaks of canonical kinds only. -/
def TriggerRule.IsCanonical (r : TriggerRule) : Prop :=
  ∀ kind ∈ r.allowed ++ r.excluded, Kind.canonical kind = kind

theorem TriggerRule.isCanonical_ofKinds (allowed excluded : List String) :
    (ofKinds allowed excluded).IsCanonical := fun _ h =>
  (List.mem_append.mp h).elim canonical_of_mem_kindSet canonical_of_mem_kindSet

/-- What the fields of a job are checked for. -/
structure Job.Checked (j : Job) : Prop where
  script : j.script ≠ []
  policy : ∀ c, j.cache = some c → c.policy.isKnown = true
  trigger : ∀ r, j.trigger = some r → r.IsCanonical

namespace Field

theorem policy_ok {job : String} {v : Value} {p : SavePolicy} (h : policy job v = .ok p) :
    p.isKnown = true := by
  unfold policy at h
  split at h
  · split at h
    · cases h
    · rename_i known
      cases h
      match hpolicy : SavePolicy.ofWord v.text with
      | .unknown word => exact absurd hpolicy (known word)
      | .onSuccess | .onFailure | .always => rfl
  · cases h
    rfl

theorem cache_ok {job : String} {v : Value} {c : CacheSpec} (h : cache job v = .ok (some c)) :
    c.policy.isKnown = true := by
  unfold cache at h
  split at h
  · cases h
  · extract_lets raw finish at h
    have known : ∀ part : Except LoadError _, part >>= finish = .ok (some c) →
        c.policy.isKnown = true := by
      intro part h
      obtain ⟨_, -, h⟩ := ok_of_bind_ok h
      obtain ⟨when, hwhen, h⟩ := ok_of_bind_ok h
      obtain ⟨paths, -, h⟩ := ok_of_bind_ok h
      cases h
      exact policy_ok hwhen
    split at h
    · obtain ⟨files, -, h⟩ := ok_of_bind_ok h
      split at h
      all_goals exact known _ h
    all_goals exact known _ h
  · cases h

theorem isCanonical_closedTrigger (allowed excluded : List String) :
    (closedTrigger allowed excluded).IsCanonical := by
  unfold closedTrigger
  split
  · simp only [TriggerRule.IsCanonical, List.append_nil, List.mem_singleton, forall_eq]
    decide +kernel
  · exact TriggerRule.isCanonical_ofKinds _ _

theorem compileRules_ok {job : String} {items : List Value} {allowed excluded : List String}
    {r : TriggerRule} (h : compileRules job allowed excluded items = .ok r) : r.IsCanonical := by
  induction items generalizing allowed excluded with
  | nil =>
      cases h
      exact isCanonical_closedTrigger _ _
  | cons v rest ih =>
      rw [compileRules] at h
      obtain ⟨rule, -, h⟩ := ok_of_bind_ok h
      split at h
      · cases h
        exact isCanonical_closedTrigger _ _
      · cases h
        exact TriggerRule.isCanonical_ofKinds _ _
      · extract_lets kind at h
        split at h
        · exact ih h
        · split at h
          · exact ih h
          · exact ih h

theorem trigger_ok {job : String} {fields : Fields} {r : TriggerRule}
    (h : trigger job fields = .ok (some r)) : r.IsCanonical := by
  unfold trigger at h
  split at h
  · obtain ⟨allowed, -, h⟩ := ok_of_bind_ok h
    obtain ⟨excluded, -, h⟩ := ok_of_bind_ok h
    split at h
    · cases h
    · cases h
      exact TriggerRule.isCanonical_ofKinds _ _
  · split at h
    · rename_i items _
      cases hrules : compileRules job [] [] items with
      | ok compiled =>
          rw [hrules] at h
          cases h
          exact compileRules_ok hrules
      | error e =>
          rw [hrules] at h
          cases h
    · cases h
  · cases h

end Field

namespace Pipeline

theorem MadeFrom.checked {j : Job} {fields : Fields} {stageNames : List String}
    (h : MadeFrom j fields stageNames) : j.Checked :=
  ⟨h.script, fun _ hc => Field.cache_ok (hc ▸ h.cache), fun _ hr => Field.trigger_ok (hr ▸ h.trigger)⟩

/-- The text of a key names a job. -/
def namesJob (name : String) : Bool := !reservedKeys.contains name && !isTemplate name

/-- The keys that a fold over entries of different names adds, from those that each step adds. -/
theorem keys_foldlM {f : Blocks → Scalar × Value → Except LoadError Blocks} {named : String → Bool}
    (step : ∀ known e next, f known e = .ok next → e.1.text ∉ known.keys →
      next.keys = known.keys ++ [e.1.text].filter named) {fields : Fields} {known blocks : Blocks}
    (h : fields.foldlM f known = .ok blocks) (distinct : (fields.map (·.1.text)).Nodup)
    (unused : ∀ e ∈ fields, e.1.text ∉ known.keys) :
    blocks.keys = known.keys ++ (fields.map (·.1.text)).filter named := by
  induction fields generalizing known with
  | nil =>
      cases h
      simp
  | cons e rest ih =>
      rw [List.foldlM_cons] at h
      obtain ⟨next, hnext, h⟩ := ok_of_bind_ok h
      have keys := step known e next hnext (unused e List.mem_cons_self)
      rw [List.map_cons, List.nodup_cons] at distinct
      have fresh : ∀ e' ∈ rest, e'.1.text ∉ next.keys := by
        intro e' he' hmem
        rw [keys] at hmem
        rcases List.mem_append.mp hmem with hmem | hmem
        · exact unused e' (List.mem_cons_of_mem _ he') hmem
        · have same := List.mem_singleton.mp (List.mem_filter.mp hmem).1
          exact distinct.1 (same ▸ List.mem_map_of_mem he')
      rw [ih h distinct.2 fresh, keys, List.append_assoc, ← List.filter_append, List.map_cons,
        List.singleton_append]

/-- The names of the blocks, where the texts of the keys differ. -/
theorem keys_blocksOf {fields : Fields} {blocks : Blocks} (h : blocksOf fields = .ok blocks)
    (distinct : (fields.map (·.1.text)).Nodup) :
    blocks.keys = (fields.map (·.1.text)).filter (!reservedKeys.contains ·) := by
  suffices keys : blocks.keys =
      Table.keys ([] : Blocks) ++ (fields.map (·.1.text)).filter (!reservedKeys.contains ·) from keys
  refine keys_foldlM ?_ h distinct (by simp [Table.keys])
  intro known e next hnext unused
  dsimp only at hnext
  split at hnext
  · rename_i reserved
    cases hnext
    rw [List.filter_cons_of_neg (by simpa using reserved), List.filter_nil, List.append_nil]
  · rename_i block
    split at hnext
    · cases hnext
      rw [List.filter_cons_of_pos (by simpa using block), List.filter_nil, Table.keys_put,
        if_neg unused]
    · cases hnext

/-- A loaded pipeline has a job for each block that is no template, and the jobs have been checked. -/
theorem jobs_ofFields {fields : Fields} {p : Pipeline} (h : ofFields fields = .ok p) :
    ((fields.map (·.1.text)).Nodup →
      p.jobs.map (·.name) = (fields.map (·.1.text)).filter namesJob) ∧ ∀ j ∈ p.jobs, j.Checked := by
  obtain ⟨stages, hstages, h⟩ := ok_of_bind_ok h
  obtain ⟨bindings, -, h⟩ := ok_of_bind_ok h
  obtain ⟨defaults, -, h⟩ := ok_of_bind_ok h
  obtain ⟨blocks, hblocks, h⟩ := ok_of_bind_ok h
  obtain ⟨jobs, hjobs, h⟩ := ok_of_bind_ok h
  cases h
  obtain ⟨names, made⟩ := buildJobs_ok hjobs
  refine ⟨fun distinct => ?_, fun j hj => ?_⟩
  · rw [names, keys_blocksOf hblocks distinct, List.filter_filter]
    apply List.filter_congr
    intro name _
    rw [namesJob, Bool.and_comm]
  · obtain ⟨fields, made⟩ := made j hj
    exact made.checked

/-- Stages of different names stand at their places, and jobs of different names in these stages. -/
structure Declared (p : Pipeline) : Prop where
  stages : (p.stages.map (·.name)).Nodup
  places : ∀ (i : Nat) (s : Stage), p.stages[i]? = some s → s.position = i
  jobs : (p.jobs.map (·.name)).Nodup
  staged : ∀ j ∈ p.jobs, ∃ s ∈ p.stages, s.name = j.stage ∧ p.positionOf j = s.position

/-- All that asks for an order of the jobs gets the same one. -/
structure InOrder (p : Pipeline) (jobs : List Job) : Prop where
  answer : p.jobsInOrder = .ok jobs
  arranged : p.Arranged jobs
  grouped : ∃ groups, p.jobsByStage = .ok groups ∧ groups.map (·.1) = p.stages ∧
    (∀ group ∈ groups, ∀ j, j ∈ group.2 ↔ j ∈ p.jobs ∧ j.stage = group.1.name) ∧
    groups.flatMap (·.2) = jobs
  planned : ∀ e, ∃ plan, p.plan e = .ok plan ∧ plan.map (·.job) = jobs

namespace Sound

variable {p : Pipeline}

theorem declared (sound : p.Sound) : p.Declared := by
  refine ⟨sound.nodup_stages, ?_, sound.jobs, ?_⟩
  · obtain ⟨names, -, hstages⟩ := sound.stages
    intro i s hs
    rw [hstages, Stage.number, List.getElem?_map, Option.map_eq_some_iff] at hs
    obtain ⟨⟨name, place⟩, hplace, rfl⟩ := hs
    rw [List.getElem?_zipIdx, Option.map_eq_some_iff] at hplace
    obtain ⟨_, -, heq⟩ := hplace
    cases heq
    simp
  · intro j hj
    obtain ⟨s, hs, hname⟩ := List.mem_map.mp (sound.staged j hj)
    exact ⟨s, hs, hname, sound.positionOf_eq hs hname.symm⟩

theorem inOrder (sound : p.Sound) : p.InOrder p.ordered := by
  refine ⟨sound.jobsInOrder_eq, p.arranged_ordered, ⟨p.groups, sound.jobsByStage_eq, ?_, ?_,
    sound.flatMap_groups⟩, fun e => ⟨_, sound.plan_eq e, ?_⟩⟩
  · simp [groups, List.map_map, Function.comp_def]
  · intro group hgroup j
    obtain ⟨s, -, rfl⟩ := List.mem_map.mp hgroup
    rw [List.mem_filter, p.ordered_perm.mem_iff, beq_iff_eq]
  · simp [List.map_map, Function.comp_def]

end Sound

/-- However a pipeline is built, it is well formed and its jobs have one order; a loaded one has moreover
the jobs of its mapping, and these have been checked. -/
theorem well_formed_and_in_order (p : Pipeline) :
    (p.IsBuilt → p.Declared ∧ ∃ jobs, p.InOrder jobs) ∧
      ∀ fields, ofFields fields = .ok p →
        ((fields.map (·.1.text)).Nodup →
          p.jobs.map (·.name) = (fields.map (·.1.text)).filter namesJob) ∧
        ∀ j ∈ p.jobs, j.Checked :=
  ⟨fun built => ⟨built.sound.declared, _, built.sound.inOrder⟩, fun _ => jobs_ofFields⟩

/-- Two jobs, the second of which runs first; a number names the other. -/
def sampleFields : Fields := [
  (.str "stages", .list [.str "build", .str "test"]),
  (.str ".base", .mapping [(.str "script", .list [.str "make"])]),
  (.int 7, .mapping [(.str "extends", .str ".base"), (.str "only", .list [.str "MR"])]),
  (.str "lint", .mapping [(.str "script", .str "lint"), (.str "stage", .str "build"),
    (.str "cache", .mapping [(.str "when", .str "always")])])]

theorem well_formed_sample : ∃ p jobs, ofFields sampleFields = .ok p ∧ p.Declared ∧ p.InOrder jobs ∧
    p.jobs.map (·.name) = ["7", "lint"] ∧ ∀ j ∈ p.jobs, j.Checked := by
  have loads : (ofFields sampleFields).toOption.isSome = true := by decide +kernel
  match loaded : ofFields sampleFields with
  | .error e =>
      rw [loaded] at loads
      cases loads
  | .ok p =>
      have ⟨builds, fields⟩ := well_formed_and_in_order p
      obtain ⟨declared, jobs, order⟩ := builds (.loaded sampleFields loaded)
      obtain ⟨names, checked⟩ := fields sampleFields loaded
      exact ⟨p, jobs, rfl, declared, order, (names (by decide +kernel)).trans (by decide +kernel),
        checked⟩

end Pipeline

end Conveyor
