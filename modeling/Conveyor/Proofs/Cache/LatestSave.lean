import Conveyor.Proofs.Cache.Damage
import Conveyor.Proofs.Cache.Memory

/-!
The store in a directory keeps, for each key, an archive of the files of its latest save, and answers
as the store in memory does.
-/

namespace Conveyor

variable {σ : Type}

namespace DirectoryStore

/-- What a store in a directory keeps for a history. -/
structure Holds (root : Location) (h : History) (w : World σ) : Prop where
  wellFormed : w.files.WellFormed
  base : w.files.entryAt? root = some .directory
  directory : ∀ key, w.files.entryAt? (keyDirectory root key) = none ∨
    w.files.entryAt? (keyDirectory root key) = some .directory
  manifest : ∀ key, w.files.entryAt? (manifestPlace root key) ≠ some .directory
  absent : ∀ key, h.lookup key = none → w.files.entryAt? (artifactPlace root key) = none
  kept : ∀ key found, h.lookup key = some found → found.Coherent ∧
    ∃ files, Catch.ofFiles files = found ∧
      w.files.HasFile (artifactPlace root key) (.archive (files.map KeptFile.member))

theorem base_above (root : Location) (key : String) : root <+: keyDirectory root key :=
  List.prefix_append root _

namespace Holds

variable {root : Location} {h : History} {w : World σ} {key : String} (holds : Holds root h w)
include holds

theorem ready (fits : (StoredName.ofKey key).Fits) : Ready w.files root key := by
  refine ⟨holds.wellFormed, holds.base, holds.directory key, ?_, holds.manifest key, fits⟩
  match there : h.lookup key with
  | none =>
      rw [holds.absent key there]
      simp
  | some found =>
      obtain ⟨-, files, -, m, stored⟩ := holds.kept key found there
      rw [stored]
      simp

/-- Only what stands in the root and below it counts. -/
theorem congr {w' : World σ} (wf : w'.files.WellFormed)
    (same : ∀ parts, w'.files.entryAt? (root ++ parts) = w.files.entryAt? (root ++ parts)) :
    Holds root h w' := by
  have base := same []
  rw [List.append_nil] at base
  refine ⟨wf, base.trans holds.base, fun key => ?_, fun key => ?_, fun key missing => ?_,
    fun key found there => ?_⟩
  · rw [keyDirectory, same]
    exact holds.directory key
  · rw [manifestPlace, same]
    exact holds.manifest key
  · rw [artifactPlace, same]
    exact holds.absent key missing
  · obtain ⟨coherent, files, hfiles, m, stored⟩ := holds.kept key found there
    exact ⟨coherent, files, hfiles, m, (same _).trans stored⟩

theorem opened {t : FileTree} (opened : w.files.Opened t (keyDirectory root key)) :
    Holds root h { w with files := t } := by
  have artifact : ∀ other, t.entryAt? (artifactPlace root other) =
      w.files.entryAt? (artifactPlace root other) := by
    intro other
    rw [artifactPlace_eq]
    exact opened.other (not_above_keyDirectory root key other _)
  refine ⟨opened.wellFormed, ?_, fun other => ?_, fun other => ?_, fun other missing => ?_,
    fun other found there => ?_⟩
  · exact opened.above (base_above root key)
  · rw [opened.view]
    split
    · exact .inr rfl
    · exact holds.directory other
  · rw [manifestPlace_eq, opened.other (not_above_keyDirectory root key other _), ← manifestPlace_eq]
    exact holds.manifest other
  · rw [artifact, holds.absent other missing]
  · obtain ⟨coherent, files, hfiles, m, stored⟩ := holds.kept other found there
    exact ⟨coherent, files, hfiles, m, (artifact other).trans stored⟩

/-- Opening the directory of a key changes nothing else. -/
theorem opened_frame {t : FileTree} (opened : w.files.Opened t (keyDirectory root key))
    (l : Location) : t.entryAt? l = w.files.entryAt? l ∨
      w.files.entryAt? l = none ∧ t.entryAt? l = some .directory ∧ l = keyDirectory root key := by
  rw [opened.view]
  split
  · rename_i hl
    rcases List.prefix_concat_iff.mp hl with rfl | hl
    · rcases holds.directory key with none | there
      · exact .inr ⟨none, rfl, rfl⟩
      · exact .inl there.symm
    · by_cases heq : l = root
      · exact .inl (heq ▸ holds.base.symm)
      · exact .inl (holds.wellFormed.directory_of_prefix holds.base hl heq).symm
  · exact .inl rfl

/-- A save gives its key the files that it found. The places of all other keys are others. -/
theorem saved {t : FileTree} {files : List KeptFile} (coherent : (Catch.ofFiles files).Coherent)
    (saved : SavedTo w.files t root key (files.map KeptFile.member)) :
    Holds root ((key, Catch.ofFiles files) :: h) { w with files := t } := by
  have artifact : ∀ other, other ≠ key → t.entryAt? (artifactPlace root other) =
      w.files.entryAt? (artifactPlace root other) := by
    intro other hne
    rw [saved.others _ (fun heq => hne (artifactPlace_injective root heq))
      (artifactPlace_ne_manifestPlace root other key), artifactPlace_eq,
      if_neg (not_above_keyDirectory root key other _)]
  have above : ∀ l, l.length < (artifactPlace root key).length → t.entryAt? l =
      if l <+: keyDirectory root key then some .directory else w.files.entryAt? l := by
    intro l hlength
    refine saved.others l ?_ ?_ <;> rintro rfl
    · omega
    · simp [artifactPlace, manifestPlace] at hlength
  refine ⟨saved.wellFormed, ?_, fun other => ?_, fun other => ?_, fun other missing => ?_,
    fun other found there => ?_⟩
  · rw [above root (by simp [artifactPlace]), if_pos (base_above root key)]
  · rw [above _ (by simp [artifactPlace, keyDirectory])]
    split
    · exact .inr rfl
    · exact holds.directory other
  · by_cases heq : other = key
    · obtain ⟨c, m, hfile⟩ := saved.manifest
      rw [heq, hfile]
      simp
    · rw [saved.others _ (artifactPlace_ne_manifestPlace root key other).symm
        (fun h => heq (manifestPlace_injective root h)), manifestPlace_eq,
        if_neg (not_above_keyDirectory root key other _), ← manifestPlace_eq]
      exact holds.manifest other
  · rw [History.lookup_saved] at missing
    split at missing
    · cases missing
    · rename_i hne
      exact (artifact other hne).trans (holds.absent other missing)
  · rw [History.lookup_saved] at there
    split at there
    · rename_i heq
      cases there
      rw [heq]
      exact ⟨coherent, files, rfl, saved.artifact⟩
    · rename_i hne
      obtain ⟨coherent, files, hfiles, m, stored⟩ := holds.kept other found there
      exact ⟨coherent, files, hfiles, m, (artifact other hne).trans stored⟩

theorem run_hit {dest : Location} {found : Catch} (there : h.lookup key = some found)
    (receives : w.files.Receives dest found) :
    ∃ t, (restore root key dest).run.run w =
        (.ok ⟨true, key, "cache hit: restored artifact"⟩, { w with files := t }) ∧
      w.files.Unpacked t dest found := by
  obtain ⟨coherent, files, rfl, m, stored⟩ := holds.kept key found there
  obtain ⟨t, extracted, unpacked⟩ := Tar.Listing.run_extract holds.wellFormed coherent receives
  refine ⟨t, ?_, unpacked⟩
  have real := FileTree.resolve_eq receives.named receives.itself.linkFree
  rw [restore_stored holds.wellFormed stored real, extract_run, Tar.Listing.ofContent, extracted]

/-- What a hit brings to a directory apart from the store leaves the store as it was. -/
theorem unpacked {dest : Location} {found : Catch} {t : FileTree} (apart : Apart root dest)
    (unpacked : w.files.Unpacked t dest found) : Holds root h { w with files := t } := by
  refine holds.congr unpacked.wellFormed fun parts => ?_
  exact unpacked.others _ fun rest c _ => (apart.below parts rest).1

end Holds

section Reached

variable {root : Location} {h : History} {w : World σ}

theorem serves {key : String} {tree : Location}
    (serves : (store root : Store σ).Serves key tree) :
    Apart root tree ∧ (StoredName.ofKey key).Fits :=
  serves root rfl

theorem holds_of_reached (reached : (store root : Store σ).Reached h w) : Holds root h w := by
  induction reached with
  | opened new =>
      have nothing : ∀ parts, parts ≠ [] → _ := new.empty root rfl
      refine ⟨new.wellFormed, new.root root rfl, fun key => .inl ?_, fun key => ?_, fun key _ => ?_,
        fun key found there => ?_⟩
      · exact nothing _ (by simp)
      · rw [manifestPlace, nothing _ (by simp)]
        simp
      · exact nothing _ (by simp)
      · cases there
  | elsewhere _ wf untouched ih => exact ih.congr wf (untouched.files root rfl)
  | @saved h w w' key paths project tree _ served real home run ih =>
      have coherent := home.coherent ih.wellFormed paths
      obtain ⟨apart, fits⟩ := serves served
      rcases (ih.ready fits).run_save real home apart paths with ⟨fault, t, failed, -⟩ |
        ⟨files, t, done, found, saved⟩
      · cases run.symm.trans failed
      · cases run.symm.trans done
        rw [← found] at coherent ⊢
        exact ih.saved coherent saved
  | @notSaved h w w' key paths project tree fault _ served real home run ih =>
      obtain ⟨apart, fits⟩ := serves served
      rcases (ih.ready fits).run_save real home apart paths with ⟨fault, t, failed, opened, -⟩ |
        ⟨files, t, done, -⟩
      · cases run.symm.trans failed
        exact ih.opened opened
      · cases run.symm.trans done
  | @restored h w w' key paths dest answer _ served receives run ih =>
      obtain ⟨apart, fits⟩ := serves served
      match there : h.lookup key with
      | none =>
          obtain ⟨t, missed, opened⟩ := (ih.ready fits).restore_missing (ih.absent key there) dest
          cases run.symm.trans missed
          exact ih.opened opened
      | some found =>
          obtain ⟨t, brought, unpacked⟩ := ih.run_hit there (receives found there)
          cases run.symm.trans brought
          exact ih.unpacked apart unpacked

/-- Places outside a store are as they were after a save. -/
theorem SavedTo.frame {key : String} {members : List Member} {t : FileTree} (holds : Holds root h w)
    (saved : SavedTo w.files t root key members) {l : Location} (outside : ¬ root <+: l) :
    t.entryAt? l = w.files.entryAt? l := by
  rw [saved.others l]
  · split
    · rename_i hl
      rcases List.prefix_concat_iff.mp hl with rfl | hl
      · exact absurd (base_above root key) outside
      · refine (holds.wellFormed.directory_of_prefix holds.base hl ?_).symm
        rintro rfl
        exact outside (List.prefix_refl _)
    · rfl
  · rintro rfl
    exact outside (List.prefix_append root _)
  · rintro rfl
    exact outside (List.prefix_append root _)

theorem store_keepsLatest (root : Location) : (store root : Store σ).KeepsLatest := by
  constructor
  · intro h w key paths project tree reached served real home accepted
    obtain ⟨apart, fits⟩ := serves served
    rcases ((holds_of_reached reached).ready fits).run_save real home apart paths with
      ⟨fault, t, -, -, path, hpath, refused⟩ | ⟨files, t, done, -⟩
    · exact absurd (accepted path hpath) refused
    · exact ⟨_, done⟩
  · intro h w key paths project tree answer w' reached served real home run l outside
    have holds := holds_of_reached reached
    have outside := outside root rfl
    obtain ⟨apart, fits⟩ := serves served
    rcases (holds.ready fits).run_save real home apart paths with ⟨fault, t, failed, opened, -⟩ |
      ⟨files, t, done, -, saved⟩
    · cases run.symm.trans failed
      rcases holds.opened_frame opened l with same | ⟨-, -, rfl⟩
      · exact same
      · exact absurd (base_above root key) outside
    · cases run.symm.trans done
      exact saved.frame holds outside
  · intro h w key paths dest reached served missing
    have holds := holds_of_reached reached
    obtain ⟨-, fits⟩ := serves served
    obtain ⟨t, missed, opened⟩ := (holds.ready fits).restore_missing (holds.absent key missing) dest
    refine ⟨t, missed, fun l => ?_⟩
    rcases holds.opened_frame opened l with same | ⟨before, after, place⟩
    · exact .inl same
    · exact .inr ⟨before, after, root, rfl, place⟩
  · intro h w key paths dest found reached _ there receives
    have holds := holds_of_reached reached
    obtain ⟨t, brought, unpacked⟩ := holds.run_hit there receives
    refine ⟨_, t, brought, unpacked.files, fun l hl => ?_⟩
    exact unpacked.frame (holds.kept key found there).1 receives hl

end Reached

end DirectoryStore

namespace Store

/-- Both stores are one map from keys to the files of the latest save. What the memory of the one holds
under a key, the archive of the other holds in the place of the key, over every run; and no save
changes what a request for another key brings. -/
theorem stores_keep_latest_save (root : Location) :
    ((MemoryStore.store : Store σ).KeepsLatest ∧ (MemoryStore.store : Store σ).KeysApart) ∧
      (DirectoryStore.store root : Store σ).KeepsLatest ∧
      (DirectoryStore.store root : Store σ).KeysApart := by
  have memory : (MemoryStore.store : Store σ).KeepsLatest := MemoryStore.store_keepsLatest
  have directory : (DirectoryStore.store root : Store σ).KeepsLatest :=
    DirectoryStore.store_keepsLatest root
  exact ⟨⟨memory, memory.keysApart⟩, directory, directory.keysApart⟩

end Store

section Sample

open DirectoryStore

/-- A new store beside a project whose only file has the name of an archive. -/
def sampleTree : FileTree :=
  ((({} : FileTree).set ["cache"] .directory).set ["project"] .directory).set
    ["project", "k.tar.gz"] (.file (.bytes []) 0)

def sampleWorld : World Unit := ⟨sampleTree, [], ()⟩

theorem entryAt?_sampleTree {l : Location} {e : Entry} (h : sampleTree.entryAt? l = some e) :
    l = [] ∧ e = .directory ∨ l = ["cache"] ∧ e = .directory ∨ l = ["project"] ∧ e = .directory ∨
      l = ["project", "k.tar.gz"] ∧ e = .file (.bytes []) 0 := by
  rcases FileTree.mem_entries_of_entryAt? h with root | mem
  · exact .inl root
  · have entries : sampleTree.entries = [(["cache"], .directory), (["project"], .directory),
      (["project", "k.tar.gz"], .file (.bytes []) 0)] := rfl
    rw [entries] at mem
    exact .inr (by simpa using mem)

theorem wellFormed_sampleTree : sampleTree.WellFormed := FileTree.wellFormed_of_entries (by decide)

theorem home_sampleTree : sampleTree.Home ["project"] := by
  refine ⟨rfl, fun parts target h => ?_, fun parts e h => ?_⟩
  · rcases entryAt?_sampleTree h with ⟨-, h⟩ | ⟨-, h⟩ | ⟨-, h⟩ | ⟨-, h⟩ <;> cases h
  · rcases entryAt?_sampleTree h with ⟨h, -⟩ | ⟨h, -⟩ | ⟨h, -⟩ | ⟨h, -⟩
    · simp at h
    · simp at h
    · simp at h
      simp [h]
    · simp at h
      simp [h]

theorem reached_sampleWorld : (DirectoryStore.store ["cache"] : Store Unit).Reached [] sampleWorld := by
  refine .opened ⟨wellFormed_sampleTree, rfl, fun root h => ?_, fun root h parts hne => ?_⟩
  · cases h
    rfl
  · cases h
    by_contra there
    obtain ⟨e, he⟩ := Option.ne_none_iff_exists'.mp there
    rcases entryAt?_sampleTree he with ⟨h, -⟩ | ⟨h, -⟩ | ⟨h, -⟩ | ⟨h, -⟩ <;> simp [hne] at h

theorem serves_sample {key : String} {tree : Location} (apart : Apart ["cache"] tree)
    (fits : (StoredName.ofKey key).Fits) :
    (DirectoryStore.store ["cache"] : Store Unit).Serves key tree := by
  intro root h
  cases h
  exact ⟨apart, fits⟩

/-- Saving the only file of the project, in any world in which the project is still the same. -/
theorem saved_sample (keeps : (DirectoryStore.store ["cache"] : Store Unit).KeepsLatest) {h : History}
    {w : World Unit} (reached : (DirectoryStore.store ["cache"]).Reached h w)
    (same : ∀ parts, w.files.entryAt? ("project" :: parts) = sampleTree.entryAt? ("project" :: parts))
    (key : String) (fits : (StoredName.ofKey key).Fits) :
    ∃ (w' : World Unit) (found : Catch),
      (DirectoryStore.save ["cache"] key ["k.tar.gz"] ["project"]).run.run w = (.ok (), w') ∧
      (DirectoryStore.store ["cache"]).Reached ((key, found) :: h) w' ∧
      found ["k.tar.gz"] (.bytes []) ∧ (∀ parts c, found parts c → parts = ["k.tar.gz"]) ∧
      ∀ l, ¬ ["cache"] <+: l → w'.files.entryAt? l = w.files.entryAt? l := by
  have wf := (holds_of_reached reached).wellFormed
  have home : w.files.Home ["project"] := home_sampleTree.congr same
  have real := home.resolve_eq wf
  have served : (DirectoryStore.store ["cache"] : Store Unit).Serves key ["project"] :=
    serves_sample ⟨by decide, by decide⟩ fits
  have there : w.files.HasFile (["project"] ++ ["k.tar.gz"]) (.bytes []) := ⟨0, same ["k.tar.gz"]⟩
  obtain ⟨accepted, found⟩ := home.finds_file wf (List.cons_ne_nil "k.tar.gz" []) there
  obtain ⟨w', saved⟩ := keeps.save_returns h w key ["k.tar.gz"] ["project"] ["project"] reached served
    real home (List.forall_mem_singleton.mpr accepted)
  refine ⟨w', _, saved, reached.saved served real home saved, found, ?_, fun l outside => ?_⟩
  · rintro parts c ⟨-, n, hfile⟩
    rcases entryAt?_sampleTree ((same parts).symm.trans hfile) with ⟨-, h⟩ | ⟨-, h⟩ | ⟨-, h⟩ | ⟨hl, -⟩
    · cases h
    · cases h
    · cases h
    · simpa using hl
  · refine keeps.save_frame h w key ["k.tar.gz"] ["project"] ["project"] _ w' reached served real home
      saved l ?_
    intro root hroot
    cases hroot
    exact outside

/-- The file is brought to a directory that is not there yet. -/
theorem keeps_latest_save_of_sample : ∃ w' reason t,
    (DirectoryStore.save ["cache"] "a" ["k.tar.gz"] ["project"]).run.run sampleWorld = (.ok (), w') ∧
      (DirectoryStore.restore ["cache"] "a" ["out"]).run.run w' =
        (.ok ⟨true, "a", reason⟩, { w' with files := t }) ∧
      t.HasFile ["out", "k.tar.gz"] (.bytes []) := by
  have keeps := (Store.stores_keep_latest_save (σ := Unit) ["cache"]).2.1
  have fits : (StoredName.ofKey "a").Fits := ⟨by decide, by decide⟩
  obtain ⟨w', found, saved, reached, there, -, frame⟩ :=
    saved_sample keeps reached_sampleWorld (fun _ => rfl) "a" fits
  have out : ∀ parts, w'.files.entryAt? ("out" :: parts) = none := by
    intro parts
    rw [frame _ (by simp)]
    by_contra entry
    obtain ⟨e, he⟩ := Option.ne_none_iff_exists'.mp entry
    rcases entryAt?_sampleTree he with ⟨h, -⟩ | ⟨h, -⟩ | ⟨h, -⟩ | ⟨h, -⟩ <;> simp at h
  have pass : ∀ parts, w'.files.Passable ("out" :: parts) := by
    intro parts m hm
    rcases List.prefix_cons_iff.mp hm with rfl | ⟨rest, rfl, -⟩
    · exact .inr rfl
    · exact .inl (out rest)
  obtain ⟨reason, t, restored, files, -⟩ := keeps.hit _ w' "a" [] ["out"] _ reached
    (serves_sample ⟨by decide, by decide⟩ fits) List.lookup_cons_self
    ⟨by decide, pass [], fun parts c _ => pass parts.dropLast, fun parts c _ => .inl (out parts)⟩
  exact ⟨w', reason, t, saved, restored, files ["k.tar.gz"] (.bytes []) there⟩

/-- A key that has been saved is missed once a hit has put another file in place of its archive. -/
theorem saved_key_missed {w : World Unit} (wf : w.files.WellFormed)
    (lost : w.files.HasFile (artifactPlace ["cache"] "k") (.bytes []))
    (project : w.files.entryAt? ["project"] = some .directory) :
    ((DirectoryStore.restore ["cache"] "k" ["project"]).run.run w).1 =
      .ok ⟨false, "k", unusable "the archive cannot be read"⟩ := by
  obtain ⟨m, stored⟩ := lost
  have real := FileTree.resolve_eq (wf.named _ _ project) (wf.linkFree project (by simp))
  rw [restore_stored wf stored real, extract_run, Tar.Listing.ofContent,
    ofBytes_of_no_gzip (by decide)]
  rfl

/-- A miss makes the directory of its key in the store. And in a tree that lies in the store, a hit may
put a file in place of an archive: then a key that has been saved is missed. -/
theorem miss_leaves_directory_and_nested_tree_loses_key :
    (∃ w', (DirectoryStore.restore ["cache"] "ns:k" ["project"]).run.run sampleWorld =
        (.ok ⟨false, "ns:k", "cache miss"⟩, w') ∧
      sampleWorld.files.entryAt? ["cache", "ns"] = none ∧
      w'.files.entryAt? ["cache", "ns"] = some .directory) ∧
    ∃ (h : History) (w w' : World Unit) (found : Catch),
      (DirectoryStore.store ["cache"]).Reached h w ∧ (h.lookup "k").isSome ∧
      h.lookup "a" = some found ∧ w.files.Receives ["cache", "_"] found ∧
      (DirectoryStore.restore ["cache"] "a" ["cache", "_"]).run.run w =
        (.ok ⟨true, "a", "cache hit: restored artifact"⟩, w') ∧
      ((DirectoryStore.restore ["cache"] "k" ["project"]).run.run w').1 =
        .ok ⟨false, "k", unusable "the archive cannot be read"⟩ := by
  have keeps : (DirectoryStore.store ["cache"] : Store Unit).KeepsLatest := store_keepsLatest ["cache"]
  constructor
  · have ready : Ready sampleTree ["cache"] "ns:k" :=
      (holds_of_reached reached_sampleWorld).ready ⟨by decide, by decide⟩
    obtain ⟨t, missed, opened⟩ := ready.restore_missing (w := sampleWorld) rfl ["project"]
    refine ⟨_, missed, rfl, ?_⟩
    exact opened.itself
  · obtain ⟨w₁, first, _, reached₁, _, _, frame₁⟩ :=
      saved_sample keeps reached_sampleWorld (fun _ => rfl) "k" ⟨by decide, by decide⟩
    obtain ⟨w₂, found, _, reached₂, there, only, frame₂⟩ :=
      saved_sample keeps reached₁ (fun parts => frame₁ _ (by simp)) "a" ⟨by decide, by decide⟩
    have holds := holds_of_reached reached₂
    obtain ⟨-, files, -, m, stored⟩ := holds.kept "k" first rfl
    have directory : w₂.files.entryAt? ["cache", "_"] = some .directory :=
      directory_of_stored holds.wellFormed stored
    have receives : w₂.files.Receives ["cache", "_"] found := by
      have pass := holds.wellFormed.passable directory
      refine ⟨by decide, pass, fun parts c h => ?_, fun parts c h => ?_⟩
      · rw [only parts c h]
        exact pass
      · rw [only parts c h]
        exact .inr ⟨_, m, stored⟩
    obtain ⟨t, brought, unpacked⟩ := holds.run_hit List.lookup_cons_self receives
    have project : t.entryAt? ["project"] = some .directory := by
      rw [unpacked.others ["project"] fun parts c _ => by simp, frame₂ _ (by simp),
        frame₁ _ (by simp)]
      rfl
    exact ⟨_, w₂, { w₂ with files := t }, _, reached₂, rfl, List.lookup_cons_self, receives, brought,
      saved_key_missed unpacked.wellFormed (unpacked.files ["k.tar.gz"] (.bytes []) there) project⟩

end Sample

end Conveyor
