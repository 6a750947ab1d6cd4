import Conveyor.Pipeline.Builder
import Conveyor.Pipeline.Load
import Conveyor.Proofs.Effect
import Conveyor.Proofs.Table
import Mathlib.Data.List.Perm.Basic

/-!
Pipelines as they are built. However a pipeline is built, its stages differ in their names and stand at
their places, its jobs differ in their names, and each job names a stage. So every job has one
position, and the stages share out the jobs.
-/

namespace Conveyor

theorem nodup_of_repeatedNames {names : List String} (h : repeatedNames names = []) :
    names.Nodup := by
  rw [List.nodup_iff_count_le_one]
  intro name
  by_contra hcount
  have hmem : name ∈ repeatedNames names := by
    simp only [repeatedNames, List.mem_eraseDups, List.mem_mergeSort, List.mem_filter,
      decide_eq_true_eq]
    exact ⟨List.count_pos_iff.mp (by omega), by omega⟩
  rw [h] at hmem
  cases hmem

theorem find?_eq_some_of_unique {α : Type u} {l : List α} {p : α → Bool} {a : α} (ha : a ∈ l)
    (hp : p a = true) (unique : ∀ b ∈ l, p b = true → b = a) : l.find? p = some a := by
  match hfind : l.find? p with
  | none => exact absurd hp (List.find?_eq_none.mp hfind a ha)
  | some b => rw [unique b (List.mem_of_find?_eq_some hfind) (List.find?_some hfind)]

namespace Stage

theorem map_name_number (names : List String) : (number names).map (·.name) = names := by
  simp [number, List.map_map, Function.comp_def, List.zipIdx_map_fst]

theorem sorted_number (names : List String) :
    (number names).Pairwise fun a b => a.position < b.position := by
  rw [number, List.pairwise_map, List.pairwise_iff_getElem]
  intro i j hi hj hij
  simpa using hij

end Stage

namespace Pipeline

/-- A pipeline as the loader and the building functions make it. -/
inductive IsBuilt (p : Pipeline) : Prop
  | loaded (fields : Fields) (h : ofFields fields = .ok p)
  | written (stages : List String) (jobs : List Job) (bindings : List (Scalar × String))
      (h : Build.pipeline stages jobs bindings = .ok p)

structure Sound (p : Pipeline) : Prop where
  stages : ∃ names : List String, names.Nodup ∧ p.stages = Stage.number names
  jobs : (p.jobs.map (·.name)).Nodup
  staged : ∀ j ∈ p.jobs, j.stage ∈ p.stages.map (·.name)

/-- A job holds what its fields give. -/
structure ReadFrom (j : Job) (fields : Fields) (templates : List String) : Prop where
  stage : j.stage =
    if (fields.field "stage").isTruthy then (fields.field "stage").text else defaultJobStage
  script : Field.commands j.name "script" (fields.field "script") = .ok j.script
  beforeScript : Field.commands j.name "before_script" (fields.field "before_script") = .ok j.beforeScript
  cache : Field.cache j.name (fields.field "cache") = .ok j.cache
  trigger : Field.trigger j.name fields = .ok j.trigger
  bindings : Field.bindings ("Job '" ++ j.name ++ "'") (fields.field "variables") = .ok j.bindings
  templates : j.templates = templates
  allowFailure : Field.allowFailure j.name (fields.field? "allow_failure") = .ok j.allowFailure

theorem readFrom_of_buildJob {name : String} {fields : Fields} {stageNames templates : List String}
    {j : Job} (h : buildJob name fields stageNames templates = .ok j) :
    j.name = name ∧ ReadFrom j fields templates ∧ j.stage ∈ stageNames ∧ j.script ≠ [] := by
  unfold buildJob at h
  extract_lets stage build at h
  split at h
  · obtain ⟨_, hthrow, _⟩ := ok_of_bind_ok h
    cases hthrow
  · rename_i hstage
    obtain ⟨script, hscript, h⟩ := ok_of_bind_ok h
    split at h
    · obtain ⟨_, hthrow, _⟩ := ok_of_bind_ok h
      cases hthrow
    · rename_i nonempty
      obtain ⟨allowFailure, hallow, h⟩ := ok_of_bind_ok h
      obtain ⟨beforeScript, hbefore, h⟩ := ok_of_bind_ok h
      obtain ⟨cache, hcache, h⟩ := ok_of_bind_ok h
      obtain ⟨trigger, htrigger, h⟩ := ok_of_bind_ok h
      obtain ⟨bindings, hbindings, h⟩ := ok_of_bind_ok h
      cases h
      exact ⟨rfl, ⟨rfl, hscript, hbefore, hcache, htrigger, hbindings, rfl, hallow⟩,
        by simpa using hstage, by simpa using nonempty⟩

/-- What a job has from the fields that it is built of. -/
structure MadeFrom (j : Job) (fields : Fields) (stageNames : List String) : Prop where
  stage : j.stage ∈ stageNames
  script : j.script ≠ []
  cache : Field.cache j.name (fields.field "cache") = .ok j.cache
  trigger : Field.trigger j.name fields = .ok j.trigger

theorem buildJob_ok {name : String} {fields : Fields} {stageNames templates : List String} {j : Job}
    (h : buildJob name fields stageNames templates = .ok j) :
    j.name = name ∧ MadeFrom j fields stageNames := by
  obtain ⟨named, reads, stage, script⟩ := readFrom_of_buildJob h
  exact ⟨named, stage, script, reads.cache, reads.trigger⟩

/-- The jobs are those of the blocks that are no templates, in the order of the blocks. -/
theorem buildJobs_ok {defaults : Fields} {blocks : Blocks} {stageNames names : List String}
    {known : Resolved} {jobs : List Job}
    (h : buildJobs defaults blocks stageNames names known = .ok jobs) :
    jobs.map (·.name) = names.filter (!isTemplate ·) ∧
      ∀ j ∈ jobs, ∃ fields, MadeFrom j fields stageNames := by
  induction names generalizing known jobs with
  | nil =>
      cases h
      simp
  | cons name rest ih =>
      rw [buildJobs] at h
      split at h
      · rename_i template
        rw [List.filter_cons_of_neg (by simp [template])]
        exact ih h
      · rename_i block
        split at h
        · cases h
        · obtain ⟨fields, -, h⟩ := ok_of_bind_ok h
          obtain ⟨templates, -, h⟩ := ok_of_bind_ok h
          obtain ⟨j, hj, h⟩ := ok_of_bind_ok h
          obtain ⟨others, hothers, h⟩ := ok_of_bind_ok h
          cases h
          obtain ⟨rfl, made⟩ := buildJob_ok hj
          obtain ⟨names, later⟩ := ih hothers
          rw [List.filter_cons_of_pos (by simp [block]), List.map_cons, names]
          exact ⟨rfl, List.forall_mem_cons.mpr ⟨⟨fields, made⟩, later⟩⟩

theorem nodup_keys_blocksOf {fields : Fields} {blocks : Blocks} (h : blocksOf fields = .ok blocks) :
    blocks.keys.Nodup := by
  refine foldlM_ok (P := fun blocks : Blocks => blocks.keys.Nodup) ?_ h (by simp [Table.keys])
  intro e known next hnext nodup
  dsimp only at hnext
  split at hnext
  · cases hnext
    exact nodup
  · split at hnext
    · cases hnext
      exact Table.nodup_keys_put nodup _ _
    · cases hnext

theorem stages_ok {v : Value} {stages : List Stage} (h : Field.stages v = .ok stages) :
    ∃ names : List String, names.Nodup ∧ stages = Stage.number names := by
  unfold Field.stages at h
  extract_lets number at h
  have numbered : ∀ names, number names = .ok stages →
      ∃ names : List String, names.Nodup ∧ stages = Stage.number names := by
    intro names h
    simp only [number] at h
    split at h
    · rename_i hrepeated
      cases h
      exact ⟨names, nodup_of_repeatedNames hrepeated, rfl⟩
    · cases h
  split at h
  · exact numbered _ h
  · split at h
    · exact numbered _ h
    · cases h
  · cases h

theorem sound_ofFields {fields : Fields} {p : Pipeline} (h : ofFields fields = .ok p) : p.Sound := by
  obtain ⟨stages, hstages, h⟩ := ok_of_bind_ok h
  obtain ⟨bindings, -, h⟩ := ok_of_bind_ok h
  obtain ⟨defaults, -, h⟩ := ok_of_bind_ok h
  obtain ⟨blocks, hblocks, h⟩ := ok_of_bind_ok h
  obtain ⟨jobs, hjobs, h⟩ := ok_of_bind_ok h
  cases h
  obtain ⟨names, made⟩ := buildJobs_ok hjobs
  refine ⟨stages_ok hstages, ?_, fun j hj => ?_⟩
  · rw [names]
    exact (nodup_keys_blocksOf hblocks).filter _
  · obtain ⟨fields, made⟩ := made j hj
    exact made.stage

theorem checkJobs_ok {stageNames seen : List String} {jobs : List Job}
    (h : Build.checkJobs stageNames seen jobs = .ok ()) :
    (jobs.map (·.name)).Nodup ∧ (∀ j ∈ jobs, j.name ∉ seen) ∧ ∀ j ∈ jobs, j.stage ∈ stageNames := by
  induction jobs generalizing seen with
  | nil => simp
  | cons j rest ih =>
      rw [Build.checkJobs] at h
      split at h
      · cases h
      · rename_i hstage
        split at h
        · cases h
        · rename_i hseen
          obtain ⟨nodup, fresh, staged⟩ := ih h
          refine ⟨?_, ?_, ?_⟩
          · rw [List.map_cons, List.nodup_cons]
            refine ⟨fun hmem => ?_, nodup⟩
            obtain ⟨k, hk, hname⟩ := List.mem_map.mp hmem
            exact fresh k hk (hname ▸ List.mem_cons_self)
          · intro k hk
            rcases List.mem_cons.mp hk with rfl | hk
            · simpa using hseen
            · exact fun hmem => fresh k hk (List.mem_cons_of_mem _ hmem)
          · intro k hk
            rcases List.mem_cons.mp hk with rfl | hk
            · simpa using hstage
            · exact staged k hk

theorem sound_build {stageNames : List String} {jobs : List Job} {bindings : List (Scalar × String)}
    {p : Pipeline} (h : Build.pipeline stageNames jobs bindings = .ok p) : p.Sound := by
  unfold Build.pipeline at h
  split at h
  · rename_i hrepeated
    obtain ⟨⟨⟩, hcheck, h⟩ := ok_of_bind_ok h
    cases h
    obtain ⟨nodup, -, staged⟩ := checkJobs_ok hcheck
    refine ⟨⟨stageNames, nodup_of_repeatedNames hrepeated, rfl⟩, nodup, ?_⟩
    simpa only [Stage.map_name_number] using staged
  · cases h

theorem IsBuilt.sound {p : Pipeline} (h : p.IsBuilt) : p.Sound := by
  cases h with
  | loaded fields h => exact sound_ofFields h
  | written stages jobs bindings h => exact sound_build h

/-- The position of a job's stage. -/
def positionOf (p : Pipeline) (j : Job) : Int := (p.position? j.stage).getD 0

/-- The jobs sorted by the positions of their stages. -/
def ordered (p : Pipeline) : List Job :=
  ((p.jobs.map fun j => (p.positionOf j, j)).mergeSort fun a b => a.1 ≤ b.1).map (·.2)

/-- The stages with their jobs. -/
def groups (p : Pipeline) : List (Stage × List Job) :=
  p.stages.map fun s => (s, p.ordered.filter (·.stage == s.name))

theorem ordered_perm (p : Pipeline) : p.ordered.Perm p.jobs := by
  refine ((List.mergeSort_perm _ _).map _).trans ?_
  simp [List.map_map, Function.comp_def]

namespace Sound

variable {p : Pipeline}

theorem nodup_stages (sound : p.Sound) : (p.stages.map (·.name)).Nodup := by
  obtain ⟨names, nodup, hstages⟩ := sound.stages
  rwa [hstages, Stage.map_name_number]

theorem sorted_stages (sound : p.Sound) :
    p.stages.Pairwise fun a b => a.position < b.position := by
  obtain ⟨names, -, hstages⟩ := sound.stages
  rw [hstages]
  exact Stage.sorted_number names

theorem position?_eq (sound : p.Sound) {s : Stage} (hs : s ∈ p.stages) :
    p.position? s.name = some s.position := by
  have found : p.stages.reverse.find? (·.name == s.name) = some s := by
    apply find?_eq_some_of_unique (by simpa using hs) (by simp)
    intro b hb hname
    exact List.inj_on_of_nodup_map sound.nodup_stages (by simpa using hb) hs (by simpa using hname)
  rw [position?, found, Option.map_some]

theorem positionOf_eq (sound : p.Sound) {s : Stage} (hs : s ∈ p.stages) {j : Job}
    (hj : j.stage = s.name) : p.positionOf j = s.position := by
  rw [positionOf, hj, sound.position?_eq hs, Option.getD_some]

theorem position?_job (sound : p.Sound) {j : Job} (hj : j ∈ p.jobs) :
    p.position? j.stage = some (p.positionOf j) := by
  obtain ⟨s, hs, hname⟩ := List.mem_map.mp (sound.staged j hj)
  rw [sound.positionOf_eq hs hname.symm, ← hname, sound.position?_eq hs]

theorem jobsInOrder_eq (sound : p.Sound) : p.jobsInOrder = .ok p.ordered := by
  rw [jobsInOrder, mapM_eq_ok (g := fun j => (p.positionOf j, j))]
  · rfl
  · intro j hj
    rw [sound.position?_job hj]

theorem jobsByStage_eq (sound : p.Sound) : p.jobsByStage = .ok p.groups := by
  rw [jobsByStage, sound.jobsInOrder_eq]
  rfl

theorem plan_eq (sound : p.Sound) (e : Event) :
    p.plan e = .ok (p.ordered.map fun job => ⟨job, job.isEligible e, job.planReason e⟩) := by
  rw [plan, sound.jobsInOrder_eq]
  rfl

end Sound

end Pipeline

end Conveyor
