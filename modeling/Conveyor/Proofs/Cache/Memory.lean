import Conveyor.Proofs.Cache.History

/-!
The store in memory keeps, for each key, the files of its latest save.
-/

namespace Conveyor

variable {σ : Type}

/-- Items among the images of others are the images of some of these. -/
theorem exists_map_of_mem {α β : Type} {g : α → β} {items : List α} {l : List β}
    (h : ∀ b ∈ l, b ∈ items.map g) : ∃ kept : List α, l = kept.map g ∧ ∀ a ∈ kept, a ∈ items := by
  induction l with
  | nil => exact ⟨[], rfl, by simp⟩
  | cons b rest ih =>
      obtain ⟨kept, rfl, hkept⟩ := ih fun c hc => h c (List.mem_cons_of_mem b hc)
      obtain ⟨a, ha, rfl⟩ := List.mem_map.mp (h b List.mem_cons_self)
      exact ⟨a :: kept, rfl, by simpa using ⟨ha, hkept⟩⟩

namespace MemoryStore

/-- Kept files of one name are the same. -/
theorem entry_agree {found : Catch} (coherent : found.Coherent) {f g : KeptFile}
    (hf : found f.1 f.2) (hg : found g.1 g.2) (hname : f.name = g.name) : f = g := by
  have parts : ∀ e : KeptFile, found e.1 e.2 → pathParts e.name = e.1 := fun e he =>
    pathParts_intercalate (coherent.proper e.1 e.2 he)
      fun n hn => (coherent.named e.1 e.2 he n hn).component
  have same : f.1 = g.1 := by rw [← parts f hf, ← parts g hg, hname]
  exact Prod.ext same (coherent.unique f.1 f.2 g.2 hf (same ▸ hg))

/-- The table of found files holds them all and nothing else, though it may have them in another
order. -/
theorem ofEntries_eq {files : List KeptFile} (coherent : (Catch.ofFiles files).Coherent) :
    ∃ kept, Table.ofEntries (files.map KeptFile.entry) = kept.map KeptFile.entry ∧
      Catch.ofFiles kept = Catch.ofFiles files := by
  have agree : ∀ e ∈ files.map KeptFile.entry, ∀ f ∈ files.map KeptFile.entry,
      e.1 = f.1 → e.2 = f.2 := by
    intro e he f hf hname
    obtain ⟨a, ha, rfl⟩ := List.mem_map.mp he
    obtain ⟨b, hb, rfl⟩ := List.mem_map.mp hf
    rw [entry_agree (f := a) (g := b) coherent ha hb hname]
  have mem := Table.mem_ofEntries agree
  obtain ⟨kept, hkept, sub⟩ := exists_map_of_mem
    fun (e : String × Content) he => (mem e.1 e.2).mp he
  refine ⟨kept, hkept, ?_⟩
  funext parts c
  refine propext ⟨fun h => sub _ h, fun h => ?_⟩
  have there : KeptFile.entry (parts, c) ∈ kept.map KeptFile.entry :=
    hkept ▸ (mem _ _).mpr (List.mem_map_of_mem h)
  obtain ⟨f, hf, hentry⟩ := List.mem_map.mp there
  have same := entry_agree (f := f) (g := (parts, c)) coherent (sub f hf) h (congrArg Prod.fst hentry)
  rw [same] at hf
  exact hf

/-- What the store keeps for a history. -/
structure Holds (h : History) (w : World σ) : Prop where
  wellFormed : w.files.WellFormed
  absent : ∀ key, h.lookup key = none → w.blobs.get? key = none
  kept : ∀ key found, h.lookup key = some found → found.Coherent ∧
    ∃ files, Catch.ofFiles files = found ∧ w.blobs.get? key = some (files.map KeptFile.entry)

variable {h : History} {w : World σ} {key : String}

theorem run_save (key : String) {project tree : Location} (wf : w.files.WellFormed)
    (real : w.files.resolve project = .ok tree) (home : w.files.Home tree) (paths : List String) :
    (∃ fault, (save key paths project).run.run w = (.error fault, w) ∧
      ∃ path ∈ paths, ¬ w.files.Accepted tree path) ∨
    ∃ files, (save key paths project).run.run w =
        (.ok (), { w with blobs := w.blobs.put key (Table.ofEntries (files.map KeptFile.entry)) }) ∧
      Catch.ofFiles files = w.files.Finds tree paths := by
  have select := Action.run_ask (·.selection project paths) w
  have selection : w.files.selection project paths = w.files.selectPaths tree paths := by
    rw [FileTree.selection, real]
    rfl
  rw [selection] at select
  rw [save]
  cases hsel : w.files.selectPaths tree paths with
  | error fault =>
      rw [hsel] at select
      exact .inl ⟨fault, run_bind_error select, home.refused wf hsel⟩
  | ok sel =>
      rw [hsel] at select
      obtain ⟨files, rfl, found⟩ := home.selectPaths_ok wf hsel
      have read := Action.run_ask (·.readSelected (files.map (KeptFile.selected tree))) w
      rw [wf.readSelected_eq (FileTree.hasFile_of_found found)] at read
      refine .inr ⟨files, ?_, found⟩
      rw [run_bind_ok select, run_bind_ok read]
      rfl

theorem Holds.run_miss (holds : Holds h w) (dest : Location) (missing : h.lookup key = none) :
    (restore key dest).run.run w = (.ok ⟨false, key, "cache miss"⟩, w) := by
  rw [restore, run_bind_ok (run_get w), holds.absent key missing]
  rfl

theorem Holds.run_hit (holds : Holds h w) {dest : Location} {found : Catch}
    (there : h.lookup key = some found) (receives : w.files.Receives dest found) :
    ∃ t, (restore key dest).run.run w =
        (.ok ⟨true, key, "cache hit: restored from memory"⟩, { w with files := t }) ∧
      w.files.Unpacked t dest found := by
  obtain ⟨coherent, files, rfl, blob⟩ := holds.kept key found there
  obtain ⟨t, written, unpacked⟩ := run_writeFiles holds.wellFormed coherent receives
  refine ⟨t, ?_, unpacked⟩
  rw [restore, run_bind_ok (run_get w), blob]
  exact run_bind_ok written

/-- A save gives its key the files that it found, and no other key loses its own. -/
theorem Holds.saved (holds : Holds h w) {files : List KeptFile}
    (coherent : (Catch.ofFiles files).Coherent) :
    Holds ((key, Catch.ofFiles files) :: h)
      { w with blobs := w.blobs.put key (Table.ofEntries (files.map KeptFile.entry)) } := by
  have others : ∀ other, other ≠ key → (w.blobs.put key
      (Table.ofEntries (files.map KeptFile.entry))).get? other = w.blobs.get? other := by
    intro other hne
    rw [Table.get?_put, beq_false_of_ne hne.symm]
    rfl
  refine ⟨holds.wellFormed, fun other missing => ?_, fun other found there => ?_⟩
  · rw [History.lookup_saved] at missing
    split at missing
    · cases missing
    · rename_i hne
      exact (others other hne).trans (holds.absent other missing)
  · rw [History.lookup_saved] at there
    split at there
    · rename_i heq
      cases there
      obtain ⟨kept, hkept, same⟩ := ofEntries_eq coherent
      refine ⟨coherent, kept, same, ?_⟩
      rw [heq, Table.get?_put, beq_self_eq_true, if_pos rfl, hkept]
    · rename_i hne
      rw [others other hne]
      exact holds.kept other found there

theorem holds_of_reached (reached : (store : Store σ).Reached h w) : Holds h w := by
  induction reached with
  | opened new =>
      refine ⟨new.wellFormed, fun key _ => ?_, fun key found there => ?_⟩
      · rw [new.blobs]
        rfl
      · cases there
  | elsewhere _ wf untouched ih =>
      refine ⟨wf, fun key missing => ?_, fun key found there => ?_⟩
      · rw [untouched.blobs, ih.absent key missing]
      · rw [untouched.blobs]
        exact ih.kept key found there
  | @saved h w w' key paths project tree _ _ real home run ih =>
      have coherent := home.coherent ih.wellFormed paths
      rcases run_save key ih.wellFormed real home paths with ⟨fault, failed, -⟩ |
        ⟨files, done, found⟩
      · cases run.symm.trans failed
      · cases run.symm.trans done
        rw [← found] at coherent ⊢
        exact ih.saved coherent
  | @notSaved h w w' key paths project tree fault _ _ real home run ih =>
      rcases run_save key ih.wellFormed real home paths with ⟨fault, failed, -⟩ |
        ⟨files, done, found⟩
      · cases run.symm.trans failed
        exact ih
      · cases run.symm.trans done
  | @restored h w w' key paths dest answer _ _ receives run ih =>
      match there : h.lookup key with
      | none =>
          cases run.symm.trans (ih.run_miss dest there)
          exact ih
      | some found =>
          obtain ⟨t, brought, unpacked⟩ := ih.run_hit there (receives found there)
          cases run.symm.trans brought
          exact ⟨unpacked.wellFormed, ih.absent, ih.kept⟩

theorem store_keepsLatest : (store : Store σ).KeepsLatest := by
  constructor
  · intro h w key paths project tree reached _ real home accepted
    rcases run_save key (holds_of_reached reached).wellFormed real home paths with
      ⟨fault, -, path, hpath, refused⟩ | ⟨files, done, -⟩
    · exact absurd (accepted path hpath) refused
    · exact ⟨_, done⟩
  · intro h w key paths project tree answer w' reached _ real home run l _
    rcases run_save key (holds_of_reached reached).wellFormed real home paths with
      ⟨fault, failed, -⟩ | ⟨files, done, -⟩
    · cases run.symm.trans failed
      rfl
    · cases run.symm.trans done
      rfl
  · intro h w key paths dest reached _ missing
    exact ⟨w.files, (holds_of_reached reached).run_miss dest missing, fun l => .inl rfl⟩
  · intro h w key paths dest found reached _ there receives
    have holds := holds_of_reached reached
    obtain ⟨t, brought, unpacked⟩ := holds.run_hit there receives
    refine ⟨_, t, brought, unpacked.files, fun l hl => ?_⟩
    exact unpacked.frame (holds.kept key found there).1 receives hl

end MemoryStore

end Conveyor
