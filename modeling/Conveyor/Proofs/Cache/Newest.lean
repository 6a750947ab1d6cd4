import Conveyor.Proofs.Cache.Agreement
import Conveyor.Proofs.Cache.Stocked

/-!
Which archives a prune keeps. The archives of a scope are those in its directory, which no other scope
has; of these the newest stay, in the number that is told, and the others go with their manifests.
-/

namespace Conveyor

/-- The scope of a key: what stands before its last colon. -/
def keyScope? (key : String) : Option String :=
  (splitLastColon key.toList).map fun (scope, _) => String.ofList scope

/-- The directory of a key is the one of its scope. An empty scope that a colon follows is not the
scope of keys without a colon. -/
theorem directory_ofKey_eq_iff (key : String) (scope : Option String) :
    (StoredName.ofKey key).directory = scopeDirectory scope ↔
      keyScope? key = scope.filter fun s => !s.isEmpty := by
  match split : splitLastColon key.toList with
  | none =>
      rw [StoredName.directory_ofKey_of_none split, keyScope?, split, Option.map_none]
      rcases scoped_or_plain scope with plain | ⟨s, nonempty, rfl⟩
      · simp [scopeDirectory_plain plain, plain]
      · rw [scopeDirectory_scoped nonempty, filter_nonempty nonempty]
        simp [StoredName.unscoped_ne_storedWord]
  | some (before, _) =>
      rw [StoredName.directory_ofKey_of_scope split, keyScope?, split, Option.map_some]
      rcases scoped_or_plain scope with plain | ⟨s, nonempty, rfl⟩
      · rw [scopeDirectory_plain plain, plain]
        simp [(StoredName.unscoped_ne_storedWord before).symm]
      · rw [scopeDirectory_scoped nonempty, filter_nonempty nonempty, Option.some.injEq, String.ofList_inj,
          isMarker_scopeMarker.storedWord_injective.eq_iff, ← String.toList_inj, String.toList_ofList]

namespace FileTree

variable {t : FileTree}

/-- Where no place is entered twice, no name is listed twice. -/
theorem nodup_names (once : t.entries.keys.Nodup) (l : Location) : (t.names l).Nodup := by
  have entries : t.entries.Pairwise fun e f => e.1 ≠ f.1 := List.pairwise_map.mp once
  have below : (t.below l).Pairwise fun e f => e.1 ≠ f.1 := by
    refine ((List.mergeSort_perm _ _).pairwise_iff Ne.symm).mpr (entries.filterMap _ ?_)
    rintro ⟨place, e⟩ ⟨place', e'⟩ different ⟨parts, f⟩ h ⟨parts', f'⟩ h' same
    dsimp only at h h' same different
    split at h <;> cases h
    split at h' <;> cases h'
    rename_i found _ _ found'
    exact different (((below?_eq_some _ _ _).mp found).trans
      (same ▸ ((below?_eq_some _ _ _).mp found').symm))
  refine below.filterMap _ ?_
  rintro ⟨parts, e⟩ ⟨parts', e'⟩ different n h n' h' same
  dsimp only at h h' different
  split at h <;> cases h
  split at h' <;> cases h'
  rename_i single _ _ single'
  cases single
  cases single'
  exact different (by rw [same])

end FileTree

namespace DirectoryStore

open FileTree

variable {σ : Type} {root directory : Location} {t t' : FileTree}

/-- No archive is listed twice. -/
theorem nodup_artifactNames (once : t.entries.keys.Nodup) (wf : t.WellFormed)
    (there : t.entryAt? directory = some .directory) :
    (artifactNames t directory).Nodup := by
  rw [artifactNames_eq wf there]
  refine (nodup_names once directory).filterMap fun file file' name h h' => ?_
  rw [(artifactName?_eq_some _ _).mp h, (artifactName?_eq_some _ _).mp h']

/-- What a prune makes of a directory. Of the archives that it held, each listed once, as many are kept as
was told, or all if there are no more; none that is removed is newer than one that is kept. What is removed
goes with its manifest, and nothing else is changed, but that the directory is there. -/
structure Newest (t t' : FileTree) (directory : Location) (keep : Int) (kept removed : List Stored) :
    Prop where
  distinct : ((kept ++ removed).map (·.name)).Nodup
  found : ∀ s, s ∈ kept ++ removed ↔ Archived t directory s
  left : ∀ s, s ∈ kept ↔ Archived t' directory s
  count : (kept.length : Int) = min keep (kept ++ removed).length
  newest : ∀ k ∈ kept, ∀ r ∈ removed, r.modified ≤ k.modified
  gone : ∀ r ∈ removed, ∀ l, IsFileOf directory r l → t'.entryAt? l = none
  spared : ∀ k ∈ kept, ∀ l, IsFileOf directory k l → t'.entryAt? l = t.entryAt? l
  others : ∀ l, l ≠ directory → (∀ r ∈ removed, ¬IsFileOf directory r l) → t'.entryAt? l = t.entryAt? l

/-- What is left once the later archives of a list in order of their times are taken out. -/
theorem TakenOut.newest {kept removed : List Stored} (taken : TakenOut t t' directory removed)
    (distinct : ((kept ++ removed).map (·.name)).Nodup)
    (found : ∀ s, s ∈ kept ++ removed ↔ Archived t directory s) {keep : Int}
    (count : (kept.length : Int) = min keep (kept ++ removed).length)
    (sorted : (kept ++ removed).Pairwise fun a b => b.modified ≤ a.modified) :
    Newest t t' directory keep kept removed := by
  have apart : ∀ k ∈ kept, ∀ r ∈ removed, ∀ l, IsFileOf directory k l → ¬IsFileOf directory r l := by
    intro k hk r hr l file other
    rw [List.map_append, List.nodup_append] at distinct
    exact distinct.2.2 _ (List.mem_map_of_mem hk) _ (List.mem_map_of_mem hr) (file.name_eq other)
  have spared : ∀ k ∈ kept, ∀ l, IsFileOf directory k l → t'.entryAt? l = t.entryAt? l :=
    fun k hk l file => taken.others l fun r hr => apart k hk r hr l file
  refine ⟨distinct, found, fun s => ⟨fun hs => ?_, fun archived => ?_⟩, count,
    (List.pairwise_append.mp sorted).2.2, taken.gone, spared, fun l _ => taken.others l⟩
  · obtain ⟨c, stands⟩ := (found s).mp (List.mem_append_left _ hs)
    exact ⟨c, (spared s hs _ (.inl rfl)).trans stands⟩
  · obtain ⟨c, stands⟩ := archived
    have before : Archived t directory s := by
      rcases taken.or_none (directory ++ [s.name ++ artifactEnding]) with same | gone
      · exact ⟨c, same.symm.trans stands⟩
      · cases gone.symm.trans stands
    rcases List.mem_append.mp ((found s).mpr before) with hs | hs
    · exact hs
    · cases (taken.gone s hs _ (.inl rfl)).symm.trans stands

/-- A tree that differs in the directory alone. -/
theorem Newest.of_same {t₀ : FileTree} {keep : Int} {kept removed : List Stored}
    (newest : Newest t t' directory keep kept removed)
    (same : ∀ l, l ≠ directory → t.entryAt? l = t₀.entryAt? l) :
    Newest t₀ t' directory keep kept removed := by
  refine ⟨newest.distinct, fun s => (newest.found s).trans ?_, newest.left, newest.count, newest.newest,
    newest.gone, fun k hk l file => (newest.spared k hk l file).trans (same l file.ne_directory),
    fun l hl others => (newest.others l hl others).trans (same l hl)⟩
  rw [Archived, Archived, same _ (by simp)]

theorem Newest.nothing (nothing : ∀ c, t.entryAt? (directory ++ [c]) = none) {keep : Int} (h : 0 ≤ keep) :
    Newest t t directory keep [] [] := by
  have none (s : Stored) : ¬Archived t directory s := by
    rintro ⟨c, stands⟩
    cases (nothing _).symm.trans stands
  exact ⟨by simp, fun s => by simp [none s], fun s => by simp [none s], (Int.min_eq_right h).symm, by simp,
    by simp, fun _ _ _ _ => rfl, fun _ _ _ => rfl⟩

/-- Files of a key that is kept elsewhere are as before. -/
theorem Newest.elsewhere {name : String} {keep : Int} {kept removed : List Stored}
    (newest : Newest t t' (root ++ [name]) keep kept removed) {key : String}
    (other : keyDirectory root key ≠ root ++ [name]) :
    t'.entryAt? (artifactPlace root key) = t.entryAt? (artifactPlace root key) ∧
      t'.entryAt? (manifestPlace root key) = t.entryAt? (manifestPlace root key) := by
  have same (c : String) : t'.entryAt? (keyDirectory root key ++ [c]) =
      t.entryAt? (keyDirectory root key ++ [c]) := by
    refine newest.others _ (by simp [keyDirectory]) fun r _ file => other ?_
    rw [← file.dropLast_eq, List.dropLast_concat]
  rw [artifactPlace_eq, manifestPlace_eq]
  exact ⟨same _, same _⟩

/-- A prune fails only where the name of the directory is too long for there to be any archive. -/
theorem Stocked.run_prune {w : World σ} {scope : Option String}
    (stocked : Stocked root (scopeDirectory scope) w.files) {keep : Int} (h : 0 ≤ keep) :
    ∃ answer t kept removed, (prune root scope keep).run.run w = (answer, { w with files := t }) ∧
      (answer = .ok () ↔ (scopeDirectory scope).utf8ByteSize ≤ nameLimit) ∧
      Newest w.files t (root ++ [scopeDirectory scope]) keep kept removed := by
  rw [prune_eq]
  rw [scopeDirectory_eq] at stocked ⊢
  generalize scopedKey scope "" = key at stocked ⊢
  rcases makeDirectories_cases stocked.wellFormed stocked.base stocked.directory with
    ⟨t, made, opened, name⟩ | ⟨long, f, refused⟩
  · have stocked₁ := stocked.opened made opened
    obtain ⟨t', kept, removed, run, taken, -, names, found, sorted, count⟩ :=
      stocked₁.shelf.run_pruneDirectory made opened.wellFormed opened.itself keep
    have distinct := names.nodup_iff.mpr (nodup_artifactNames stocked₁.once opened.wellFormed opened.itself)
    have parent : w.files.entryAt? (keyDirectory root key).dropLast = some .directory := by
      rw [keyDirectory, List.dropLast_concat, stocked.base]
    have newest := (taken.newest distinct found (count h) sorted).of_same fun l other =>
      opened.same stocked.wellFormed parent other
    exact ⟨.ok (), t', kept, removed, run, by simp [name.short], newest⟩
  · have nothing (c : String) : w.files.entryAt? (keyDirectory root key ++ [c]) = none := by
      refine Option.eq_none_iff_forall_ne_some.mpr fun e stands => ?_
      have name := stocked.wellFormed.named _ _ stands (StoredName.ofKey key).directory
        (by simp [keyDirectory])
      exact absurd name.short (Nat.not_le.mpr long)
    have run := Action.run_onFiles (·.makeDirectories (keyDirectory root key)) w
    rw [refused] at run
    exact ⟨.error f, w.files, [], [], run_bind_error run, by simpa using long, .nothing nothing h⟩

/-- A prune keeps the newest archives of its scope, as many as told, and takes the others away with their
manifests. Files of keys in other scopes, or of keys without a scope where there is one to prune, are not
touched, and other directories stay in order. -/
theorem prune_keeps_newest {w : World σ} (scope : Option String)
    (stocked : Stocked root (scopeDirectory scope) w.files) {keep : Int} (h : 0 ≤ keep) :
    ∃ answer t kept removed, (prune root scope keep).run.run w = (answer, { w with files := t }) ∧
      (answer = .ok () ↔ (scopeDirectory scope).utf8ByteSize ≤ nameLimit) ∧
      (∀ name, Stocked root name w.files → Stocked root name t) ∧
      Newest w.files t (root ++ [scopeDirectory scope]) keep kept removed ∧
      (∀ key, keyDirectory root key = root ++ [scopeDirectory scope] ↔
        keyScope? key = scope.filter fun s => !s.isEmpty) ∧
      ∀ key, keyScope? key ≠ scope.filter (fun s => !s.isEmpty) →
        t.entryAt? (artifactPlace root key) = w.files.entryAt? (artifactPlace root key) ∧
        t.entryAt? (manifestPlace root key) = w.files.entryAt? (manifestPlace root key) := by
  have keys (key : String) : keyDirectory root key = root ++ [scopeDirectory scope] ↔
      keyScope? key = scope.filter fun s => !s.isEmpty := by
    rw [← directory_ofKey_eq_iff, keyDirectory]
    simp
  obtain ⟨answer, t, kept, removed, run, succeeds, newest⟩ := stocked.run_prune h
  exact ⟨answer, t, kept, removed, run, succeeds, fun name others => others.pruned stocked run, newest,
    keys, fun key other => newest.elsewhere (mt (keys key).mp other)⟩

section Sample

/-- A store that holds two archives without manifests. -/
def shelvedTree : FileTree :=
  ((freshTree.set ["p", "c", "_"] .directory).set ["p", "c", "_", "a.tar.gz"] (.file (.archive []) 1)).set
    ["p", "c", "_", "b.tar.gz"] (.file (.archive []) 2)

theorem mem_shelvedTree {parts : List String} {e : Entry}
    (h : shelvedTree.entryAt? (["p", "c"] ++ parts) = some e) :
    (parts, e) ∈ [([], Entry.directory), (["_"], .directory), (["_", "a.tar.gz"], .file (.archive []) 1),
      (["_", "b.tar.gz"], .file (.archive []) 2)] := by
  have entry : (["p", "c"] ++ parts, e) ∈ [(["p"], Entry.directory), (["p", "c"], .directory),
      (["p", "c", "_"], .directory), (["p", "c", "_", "a.tar.gz"], .file (.archive []) 1),
      (["p", "c", "_", "b.tar.gz"], .file (.archive []) 2)] :=
    (mem_entries_of_entryAt? h).resolve_left (by simp)
  simpa using entry

theorem wellFormed_shelvedTree : shelvedTree.WellFormed := FileTree.wellFormed_of_entries (by decide)

theorem archive_shelvedTree {directory name : String} {e : Entry}
    (h : shelvedTree.entryAt? (["p", "c"] ++ [directory, name ++ artifactEnding]) = some e) :
    name = "a" ∧ e = .file (.archive []) 1 ∨ name = "b" ∧ e = .file (.archive []) 2 := by
  have entry := mem_shelvedTree h
  simp at entry
  exact entry.imp (fun h => ⟨(String.append_left_inj artifactEnding).mp h.1.2, h.2⟩)
    fun h => ⟨(String.append_left_inj artifactEnding).mp h.1.2, h.2⟩

theorem stocked_shelvedTree : Stocked ["p", "c"] "_" shelvedTree := by
  refine ⟨wellFormed_shelvedTree, by decide, rfl, .inr rfl, fun name e there => ?_, fun name there => ?_⟩
  · rcases archive_shelvedTree there with ⟨rfl, rfl⟩ | ⟨rfl, rfl⟩
    · exact ⟨⟨_, _, rfl⟩, by decide⟩
    · exact ⟨⟨_, _, rfl⟩, by decide⟩
  · have entry := mem_shelvedTree there
    simp at entry

/-- Of two archives the newer one is kept. -/
theorem prune_keeps_newest_of_two : ∃ t,
    (prune ["p", "c"] none 1).run.run (⟨shelvedTree, [], ()⟩ : World Unit) = (.ok (), ⟨t, [], ()⟩) ∧
      t.entryAt? ["p", "c", "_", "a.tar.gz"] = none ∧
      t.entryAt? ["p", "c", "_", "b.tar.gz"] = some (.file (.archive []) 2) := by
  obtain ⟨answer, t, kept, removed, run, succeeds, -, newest, -, -⟩ := prune_keeps_newest
    (w := (⟨shelvedTree, [], ()⟩ : World Unit)) none stocked_shelvedTree (show (0 : Int) ≤ 1 by decide)
  obtain rfl := succeeds.mpr (by decide)
  have older : (⟨"a", 1⟩ : Stored) ∈ kept ++ removed := (newest.found _).mpr ⟨_, rfl⟩
  have newer : (⟨"b", 2⟩ : Stored) ∈ kept ++ removed := (newest.found _).mpr ⟨_, rfl⟩
  have count := newest.count
  have many := List.length_pos_of_mem older
  obtain ⟨k, rfl⟩ : ∃ k, kept = [k] := List.length_eq_one_iff.mp (by omega)
  obtain rfl : k = ⟨"b", 2⟩ := by
    obtain ⟨name, m⟩ := k
    obtain ⟨c, there⟩ := (newest.found _).mp List.mem_cons_self
    rcases archive_shelvedTree there with ⟨rfl, same⟩ | ⟨rfl, same⟩ <;> cases same
    · have removed : (⟨"b", 2⟩ : Stored) ∈ removed := by simpa using newer
      exact absurd (newest.newest _ (List.mem_singleton.mpr rfl) _ removed) (by decide)
    · rfl
  have removed : (⟨"a", 1⟩ : Stored) ∈ removed := by simpa using older
  exact ⟨t, run, newest.gone _ removed _ (.inl rfl),
    newest.spared _ (List.mem_singleton.mpr rfl) _ (.inl rfl)⟩

end Sample

end DirectoryStore

end Conveyor
