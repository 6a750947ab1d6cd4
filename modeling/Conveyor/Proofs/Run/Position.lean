import Conveyor.Proofs.Run.Stages

/-!
Which jobs the stages run, by the positions of the jobs. A job of a later stage starts when those of
all earlier stages have ended, and a failure for good stops what stands behind its stage.
-/

namespace Conveyor

/-- Why a job is skipped. -/
def skipReason (e : Event) (job : Job) : String :=
  if job.isEligible e then blockedReason else "trigger: " ++ job.planReason e

theorem skipNote?_eq (e : Event) (blocked : Bool) (job : Job) :
    skipNote? e blocked job = if job.isEligible e && !blocked then none
      else some (job.name, skippedResult job (skipReason e job)) := by
  unfold skipNote? skipReason
  cases job.isEligible e <;> cases blocked <;> rfl

/-- Stages with their jobs in the order of positions that jobs have. -/
structure Placed (position : Job → Int) (groups : List (Stage × List Job)) : Prop where
  sorted : groups.Pairwise fun a b => a.1.position < b.1.position
  own : ∀ group ∈ groups, ∀ job ∈ group.2, position job = group.1.position

namespace Placed

variable {position : Job → Int} {stage : Stage} {jobs : List Job} {groups : List (Stage × List Job)}

theorem tail (h : Placed position ((stage, jobs) :: groups)) : Placed position groups :=
  ⟨(List.pairwise_cons.mp h.sorted).2, fun group hg => h.own group (List.mem_cons_of_mem _ hg)⟩

theorem head (h : Placed position ((stage, jobs) :: groups)) {job : Job} (hjob : job ∈ jobs) :
    position job = stage.position :=
  h.own (stage, jobs) List.mem_cons_self job hjob

theorem later (h : Placed position ((stage, jobs) :: groups)) {job : Job}
    (hjob : job ∈ groups.flatMap (·.2)) : stage.position < position job := by
  obtain ⟨group, hg, hjob⟩ := List.mem_flatMap.mp hjob
  rw [h.own group (List.mem_cons_of_mem _ hg) job hjob]
  exact (List.pairwise_cons.mp h.sorted).1 group hg

theorem nodup_jobs (h : Placed position groups) (nodup : ∀ group ∈ groups, group.2.Nodup) :
    (groups.flatMap (·.2)).Nodup := by
  refine List.nodup_flatMap.mpr ⟨nodup, h.sorted.imp_of_mem ?_⟩
  intro a b ha hb hlt job hjob hother
  have := h.own a ha job hjob
  have := h.own b hb job hother
  omega

end Placed

namespace Passes

variable {e : Event} {failFast blocked : Bool} {groups : List (Stage × List Job)}
  {ran : List Executed} {notes : Results}

theorem mem_startedJobs {job : Job} {jobs : List Job} :
    job ∈ startedJobs e blocked jobs ↔ job ∈ jobs ∧ job.isEligible e = true ∧ blocked = false := by
  simp [startedJobs]

theorem of_mem (h : Passes e failFast blocked groups ran notes) :
    ∀ r ∈ ran, r.1 ∈ groups.flatMap (·.2) ∧ r.1.isEligible e = true ∧ r.2.Concludes r.1 := by
  induction h with
  | done => simp
  | @stage blocked stage jobs groups first rest notes order concluded later ih =>
      intro r hr
      rcases List.mem_append.mp hr with hr | hr
      · have started := order.mem_iff.mp (List.mem_map_of_mem hr)
        obtain ⟨hjob, heligible, -⟩ := mem_startedJobs.mp started
        exact ⟨List.mem_flatMap.mpr ⟨_, List.mem_cons_self, hjob⟩, heligible, concluded r hr⟩
      · obtain ⟨hjob, rest⟩ := ih r hr
        exact ⟨by simp [hjob], rest⟩

/-- Jobs run in the order of their stages. -/
theorem barrier {position : Job → Int} (h : Passes e failFast blocked groups ran notes)
    (placed : Placed position groups) :
    ran.Pairwise fun a b => position a.1 ≤ position b.1 := by
  induction h with
  | done => exact .nil
  | @stage blocked stage jobs groups first rest notes order concluded later ih =>
      have here : ∀ r ∈ first, position r.1 = stage.position := fun r hr =>
        placed.head (mem_startedJobs.mp (order.mem_iff.mp (List.mem_map_of_mem hr))).1
      refine List.pairwise_append.mpr ⟨?_, ih placed.tail, ?_⟩
      · exact List.pairwise_iff_forall_sublist.mpr fun {a b} hab => by
          have ha := here a (hab.subset (by simp))
          have hb := here b (hab.subset (by simp))
          omega
      · intro a ha b hb
        have hlater := placed.later (later.of_mem b hb).1
        rw [here a ha]
        omega

/-- A job that the event starts runs unless a failure for good has happened in an earlier stage. The
induction is over the stages; the flag carries the failures of the stages that are past. -/
theorem ran_iff {position : Job → Int} (h : Passes e failFast blocked groups ran notes)
    (placed : Placed position groups) {job : Job} (hjob : job ∈ groups.flatMap (·.2))
    (eligible : job.isEligible e = true) :
    (∃ r ∈ ran, r.1 = job) ↔ blocked = false ∧
      ¬ (failFast = true ∧ ∃ r ∈ ran, r.2.isBlocking = true ∧ position r.1 < position job) := by
  induction h with
  | done => simp at hjob
  | @stage blocked stage jobs groups first rest notes order concluded later ih =>
      have mem_first : ∀ job, (∃ r ∈ first, r.1 = job) ↔
          job ∈ jobs ∧ job.isEligible e = true ∧ blocked = false := by
        intro job
        rw [← mem_startedJobs, ← order.mem_iff, List.mem_map]
      have here : ∀ r ∈ first, position r.1 = stage.position := fun r hr =>
        placed.head ((mem_first r.1).mp ⟨r, hr, rfl⟩).1
      have there : ∀ r ∈ rest, stage.position < position r.1 := fun r hr =>
        placed.later (later.of_mem r hr).1
      simp only [List.mem_append, or_and_right, exists_or]
      rw [List.flatMap_cons] at hjob
      rcases List.mem_append.mp hjob with hnow | hlater
      · have hpos := placed.head hnow
        have notRest : ¬ ∃ r ∈ rest, r.1 = job := by
          rintro ⟨r, hr, rfl⟩
          have := there r hr
          omega
        have noEarlier : ¬ ((∃ r ∈ first, r.2.isBlocking = true ∧ position r.1 < position job) ∨
            ∃ r ∈ rest, r.2.isBlocking = true ∧ position r.1 < position job) := by
          rintro (⟨r, hr, -, hlt⟩ | ⟨r, hr, -, hlt⟩)
          · have := here r hr
            omega
          · have := there r hr
            omega
        have now : job ∈ jobs := hnow
        simp only [mem_first, notRest, noEarlier, now, eligible, or_false, and_false, not_false_eq_true,
          and_true, true_and]
      · have hpos := placed.later hlater
        have notFirst : ¬ ∃ r ∈ first, r.1 = job := by
          rintro ⟨r, hr, rfl⟩
          have := here r hr
          omega
        have earlier : (∃ r ∈ first, r.2.isBlocking = true ∧ position r.1 < position job) ↔
            first.any (·.2.isBlocking) = true := by
          rw [List.any_eq_true]
          constructor
          · rintro ⟨r, hr, hblocking, -⟩
            exact ⟨r, hr, hblocking⟩
          · rintro ⟨r, hr, hblocking⟩
            exact ⟨r, hr, hblocking, by rw [here r hr]; exact hpos⟩
        have step := ih placed.tail hlater
        simp only [notFirst, false_or, earlier, step]
        cases blocked <;> cases failFast <;> simp

theorem notes_of_ran (h : Passes e failFast blocked groups ran notes) :
    (ran.map Executed.note).Sublist notes := by
  induction h with
  | done => exact List.Sublist.refl []
  | stage order concluded later ih =>
      rw [List.map_append]
      exact (List.sublist_append_right _ _).append ih

/-- Every job of the stages has one note. -/
theorem names_of_notes (h : Passes e failFast blocked groups ran notes) :
    (notes.map (·.1)).Perm ((groups.flatMap (·.2)).map (·.name)) := by
  induction h with
  | done => exact .refl _
  | @stage blocked stage jobs groups first rest notes order concluded later ih =>
      have skipped : (jobs.filterMap (skipNote? e blocked)).map (·.1) =
          (jobs.filter fun job => !(job.isEligible e && !blocked)).map (·.name) := by
        rw [List.map_filterMap, ← List.filterMap_eq_filter, List.map_filterMap]
        congr 1
        funext job
        rw [skipNote?_eq]
        cases hstarts : job.isEligible e && !blocked <;> simp [Option.guard, hstarts]
      have started : ((first.map Executed.note).map (·.1)).Perm
          ((startedJobs e blocked jobs).map (·.name)) := by
        simpa [List.map_map, Executed.note, Function.comp_def] using order.map (·.name)
      have split : ((jobs.filter fun job => !(job.isEligible e && !blocked)) ++
          startedJobs e blocked jobs).Perm jobs :=
        List.perm_append_comm.trans (List.filter_append_perm _ jobs)
      have now := split.map (·.name)
      rw [List.map_append] at now
      simp only [List.map_append, List.flatMap_cons, skipped]
      exact ((started.append_left _).trans now).append ih

theorem note_of_skipped (h : Passes e failFast blocked groups ran notes) {job : Job}
    (hjob : job ∈ groups.flatMap (·.2)) (hran : ∀ r ∈ ran, r.1 ≠ job) :
    (job.name, skippedResult job (skipReason e job)) ∈ notes := by
  induction h with
  | done => simp at hjob
  | @stage blocked stage jobs groups first rest notes order concluded later ih =>
      rw [List.flatMap_cons] at hjob
      rcases List.mem_append.mp hjob with hnow | hlater
      · have waits : (job.isEligible e && !blocked) = false := by
          rw [Bool.eq_false_iff]
          intro hstarts
          have started : job ∈ startedJobs e blocked jobs := List.mem_filter.mpr ⟨hnow, hstarts⟩
          obtain ⟨r, hr, heq⟩ := List.mem_map.mp (order.mem_iff.mpr started)
          exact hran r (List.mem_append_left _ hr) heq
        apply List.mem_append_left
        apply List.mem_append_left
        exact List.mem_filterMap.mpr ⟨job, hnow, by rw [skipNote?_eq, waits]; rfl⟩
      · apply List.mem_append_right
        exact ih hlater fun r hr => hran r (List.mem_append_right _ hr)

end Passes

end Conveyor
