import Conveyor.Proofs.Pipeline.Order

/-!
The order of the jobs. Jobs are sorted by the positions of their stages, jobs of one position keep the
order in which they were declared, and the stages, one after the other, give just that order.
-/

namespace Conveyor

/-- A sorted list starts with the items of its least key. -/
theorem filter_append_filter_of_sorted {α : Type u} {key : α → Int} {k : Int} {l : List α}
    (sorted : l.Pairwise fun a b => key a ≤ key b) (least : ∀ a ∈ l, k ≤ key a) :
    l.filter (key · = k) ++ l.filter (key · ≠ k) = l := by
  induction l with
  | nil => rfl
  | cons a rest ih =>
      obtain ⟨first, sorted⟩ := List.pairwise_cons.mp sorted
      obtain ⟨ha, least⟩ := List.forall_mem_cons.mp least
      by_cases same : key a = k
      · simpa [same] using ih sorted least
      · -- nothing after the head has the least key
        have later : ∀ b ∈ rest, key b ≠ k := fun b hb => by
          have := first b hb
          omega
        have none : rest.filter (key · = k) = [] :=
          List.filter_eq_nil_iff.mpr fun b hb => by simpa using later b hb
        have all : rest.filter (key · ≠ k) = rest :=
          List.filter_eq_self.mpr fun b hb => by simpa using later b hb
        rw [List.filter_cons_of_neg (by simpa using same), List.filter_cons_of_pos (by simpa using same),
          none, all, List.nil_append]

/-- The items of the keys in turn are a list that is sorted by keys. -/
theorem flatMap_filter_of_sorted {α : Type u} {key : α → Int} {keys : List Int} {l : List α}
    (strict : keys.Pairwise (· < ·)) (sorted : l.Pairwise fun a b => key a ≤ key b)
    (covered : ∀ a ∈ l, key a ∈ keys) : keys.flatMap (fun k => l.filter (key · = k)) = l := by
  induction keys generalizing l with
  | nil => exact (List.eq_nil_iff_forall_not_mem.mpr fun a ha => by simpa using covered a ha).symm
  | cons k keys ih =>
      obtain ⟨first, strict⟩ := List.pairwise_cons.mp strict
      have rest : keys.flatMap (fun k' => (l.filter (key · ≠ k)).filter (key · = k')) =
          l.filter (key · ≠ k) := by
        apply ih strict (sorted.filter _)
        intro a ha
        obtain ⟨ha, other⟩ := List.mem_filter.mp ha
        exact (List.mem_cons.mp (covered a ha)).resolve_left (by simpa using other)
      have same : keys.flatMap (fun k' => l.filter (key · = k')) =
          keys.flatMap fun k' => (l.filter (key · ≠ k)).filter (key · = k') := by
        apply List.flatMap_congr
        intro k' hk'
        rw [List.filter_filter]
        apply List.filter_congr
        intro a _
        have := first k' hk'
        rw [Bool.eq_iff_iff]
        simp only [Bool.and_eq_true, decide_eq_true_eq]
        omega
      have least : ∀ a ∈ l, k ≤ key a := by
        intro a ha
        rcases List.mem_cons.mp (covered a ha) with h | h
        · omega
        · exact Int.le_of_lt (first _ h)
      rw [List.flatMap_cons, same, rest, filter_append_filter_of_sorted sorted least]

namespace Pipeline

/-- The jobs in the order of the positions of their stages, and else in the order of declaration. -/
structure Arranged (p : Pipeline) (jobs : List Job) : Prop where
  perm : jobs.Perm p.jobs
  sorted : jobs.Pairwise fun a b => p.positionOf a ≤ p.positionOf b
  stable : ∀ n, jobs.filter (p.positionOf · = n) = p.jobs.filter (p.positionOf · = n)

theorem byPosition_trans (a b c : Int × Job) (hab : decide (a.1 ≤ b.1) = true)
    (hbc : decide (b.1 ≤ c.1) = true) : decide (a.1 ≤ c.1) = true := by
  simp only [decide_eq_true_eq] at *
  omega

theorem byPosition_total (a b : Int × Job) : (decide (a.1 ≤ b.1) || decide (b.1 ≤ a.1)) = true := by
  simp only [Bool.or_eq_true, decide_eq_true_eq]
  omega

theorem sorted_ordered (p : Pipeline) :
    p.ordered.Pairwise fun a b => p.positionOf a ≤ p.positionOf b := by
  have sorted := List.pairwise_mergeSort byPosition_trans byPosition_total
    (p.jobs.map fun j => (p.positionOf j, j))
  have placed : ∀ e ∈ (p.jobs.map fun j => (p.positionOf j, j)).mergeSort fun a b => a.1 ≤ b.1,
      e.1 = p.positionOf e.2 := by
    intro e he
    obtain ⟨j, -, rfl⟩ := List.mem_map.mp (List.mem_mergeSort.mp he)
    rfl
  rw [ordered, List.pairwise_map]
  refine sorted.imp_of_mem fun ha hb hle => ?_
  rw [← placed _ ha, ← placed _ hb]
  simpa using hle

/-- The sort is stable: jobs of one position are a sorted part of the declared jobs. -/
theorem stable_ordered (p : Pipeline) (n : Int) :
    p.ordered.filter (p.positionOf · = n) = p.jobs.filter (p.positionOf · = n) := by
  have alike : ((p.jobs.filter (p.positionOf · = n)).map fun j => (p.positionOf j, j)).Pairwise
      fun a b => decide (a.1 ≤ b.1) = true := by
    refine List.pairwise_map.mpr (List.pairwise_of_forall_mem_list fun a ha b hb => ?_)
    have ha := (List.mem_filter.mp ha).2
    have hb := (List.mem_filter.mp hb).2
    simp only [decide_eq_true_eq] at *
    omega
  have part := List.sublist_mergeSort byPosition_trans byPosition_total alike
    (List.filter_sublist.map fun j => (p.positionOf j, j))
  have kept : (p.jobs.filter (p.positionOf · = n)).Sublist p.ordered := by
    simpa [ordered, List.map_map, Function.comp_def] using part.map (·.2)
  have sub := kept.filter (p.positionOf · = n)
  rw [List.filter_filter] at sub
  simp only [Bool.and_self] at sub
  exact (sub.eq_of_length (p.ordered_perm.filter _).length_eq.symm).symm

theorem arranged_ordered (p : Pipeline) : p.Arranged p.ordered :=
  ⟨p.ordered_perm, p.sorted_ordered, p.stable_ordered⟩

namespace Sound

variable {p : Pipeline}

theorem mem_stage_iff (sound : p.Sound) {s : Stage} (hs : s ∈ p.stages) {j : Job} (hj : j ∈ p.jobs) :
    j.stage = s.name ↔ p.positionOf j = s.position := by
  refine ⟨sound.positionOf_eq hs, fun hposition => ?_⟩
  obtain ⟨t, ht, hname⟩ := List.mem_map.mp (sound.staged j hj)
  have same : t.position = s.position := by rw [← sound.positionOf_eq ht hname.symm, hposition]
  have distinct : (p.stages.map (·.position)).Nodup :=
    List.pairwise_map.mpr (sound.sorted_stages.imp fun hlt => by omega)
  rw [← hname, List.inj_on_of_nodup_map distinct ht hs same]

/-- The groups of the stages, one after the other, are the jobs in order. -/
theorem flatMap_groups (sound : p.Sound) : p.groups.flatMap (·.2) = p.ordered := by
  have byPosition : p.groups.flatMap (·.2) =
      (p.stages.map (·.position)).flatMap fun n => p.ordered.filter (p.positionOf · = n) := by
    rw [groups, List.flatMap_map, List.flatMap_map]
    apply List.flatMap_congr
    intro s hs
    apply List.filter_congr
    intro j hj
    rw [Bool.eq_iff_iff, beq_iff_eq, decide_eq_true_eq]
    exact sound.mem_stage_iff hs (p.ordered_perm.mem_iff.mp hj)
  rw [byPosition]
  apply flatMap_filter_of_sorted (List.pairwise_map.mpr sound.sorted_stages) p.sorted_ordered
  intro j hj
  obtain ⟨s, hs, hname⟩ := List.mem_map.mp (sound.staged j (p.ordered_perm.mem_iff.mp hj))
  rw [sound.positionOf_eq hs hname.symm]
  exact List.mem_map_of_mem hs

end Sound

end Pipeline

end Conveyor
