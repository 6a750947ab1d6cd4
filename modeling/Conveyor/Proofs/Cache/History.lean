import Conveyor.Proofs.Cache.Directory

/-!
Histories of stores, and what a store owes to its history: a request is a hit just where its key has
been saved, and then it brings the files of the latest save. Between its operations the world may
change in any way that leaves the store alone.
-/

namespace Conveyor

/-- What has been saved, the latest first: keys with the files that were found. -/
abbrev History := List (String × Catch)

theorem History.lookup_saved (h : History) (key other : String) (found : Catch) :
    List.lookup other ((key, found) :: h) = if other = key then some found else h.lookup other := by
  rw [List.lookup_cons]
  by_cases heq : other = key
  · simp [heq]
  · rw [beq_false_of_ne heq, if_neg heq]

namespace Store

variable {σ : Type}

/-- A store that keeps files stands apart from a directory tree, and can keep files under a key. -/
def Serves (s : Store σ) (key : String) (tree : Location) : Prop :=
  ∀ root, s.root = some root → Apart root tree ∧ (StoredName.ofKey key).Fits

/-- A world in which nothing has been saved. -/
structure New (s : Store σ) (w : World σ) : Prop where
  wellFormed : w.files.WellFormed
  blobs : w.blobs = []
  root : ∀ root, s.root = some root → w.files.entryAt? root = some .directory
  empty : ∀ root, s.root = some root → ∀ parts, parts ≠ [] → w.files.entryAt? (root ++ parts) = none

/-- Two worlds do not differ in what a store keeps. -/
structure Untouched (s : Store σ) (w w' : World σ) : Prop where
  blobs : w'.blobs = w.blobs
  files : ∀ root, s.root = some root → ∀ parts,
    w'.files.entryAt? (root ++ parts) = w.files.entryAt? (root ++ parts)

/-- The histories of a store with the worlds that they lead to. -/
inductive Reached (s : Store σ) : History → World σ → Prop
  | opened {w : World σ} (new : s.New w) : Reached s [] w
  | elsewhere {h : History} {w w' : World σ} (before : Reached s h w) (wf : w'.files.WellFormed)
      (untouched : s.Untouched w w') : Reached s h w'
  | saved {h : History} {w w' : World σ} {key : String} {paths : List String}
      {project tree : Location} (before : Reached s h w) (serves : s.Serves key tree)
      (real : w.files.resolve project = .ok tree) (home : w.files.Home tree)
      (run : (s.save key paths project).run.run w = (.ok (), w')) :
      Reached s ((key, w.files.Finds tree paths) :: h) w'
  | notSaved {h : History} {w w' : World σ} {key : String} {paths : List String}
      {project tree : Location} {fault : Fault} (before : Reached s h w) (serves : s.Serves key tree)
      (real : w.files.resolve project = .ok tree) (home : w.files.Home tree)
      (run : (s.save key paths project).run.run w = (.error fault, w')) : Reached s h w'
  | restored {h : History} {w w' : World σ} {key : String} {paths : List String} {dest : Location}
      {answer : Except Fault Restored} (before : Reached s h w) (serves : s.Serves key dest)
      (receives : ∀ found, h.lookup key = some found → w.files.Receives dest found)
      (run : (s.restore key paths dest).run.run w = (answer, w')) : Reached s h w'

/-- A store answers from the latest save of each key. A save of accepted paths returns and changes the
tree in the store only; a miss changes nothing, but that the directory of the key may be made; a hit
puts the files that were found at their places, makes directories above them where there are none, and
changes nothing else. -/
structure KeepsLatest (s : Store σ) : Prop where
  save_returns : ∀ h w key paths project tree, s.Reached h w → s.Serves key tree →
    w.files.resolve project = .ok tree → w.files.Home tree →
    (∀ path ∈ paths, w.files.Accepted tree path) →
    ∃ w', (s.save key paths project).run.run w = (.ok (), w')
  save_frame : ∀ h w key paths project tree answer w', s.Reached h w → s.Serves key tree →
    w.files.resolve project = .ok tree → w.files.Home tree →
    (s.save key paths project).run.run w = (answer, w') →
    ∀ l, (∀ root, s.root = some root → ¬ root <+: l) → w'.files.entryAt? l = w.files.entryAt? l
  miss : ∀ h w key paths dest, s.Reached h w → s.Serves key dest → h.lookup key = none →
    ∃ t, (s.restore key paths dest).run.run w =
        (.ok ⟨false, key, "cache miss"⟩, { w with files := t }) ∧
      ∀ l, t.entryAt? l = w.files.entryAt? l ∨
        w.files.entryAt? l = none ∧ t.entryAt? l = some .directory ∧
          ∃ root, s.root = some root ∧ l = DirectoryStore.keyDirectory root key
  hit : ∀ h w key paths dest found, s.Reached h w → s.Serves key dest → h.lookup key = some found →
    w.files.Receives dest found →
    ∃ reason t, (s.restore key paths dest).run.run w =
        (.ok ⟨true, key, reason⟩, { w with files := t }) ∧
      (∀ parts c, found parts c → t.HasFile (dest ++ parts) c) ∧
      ∀ l, (∀ parts c, found parts c → l ≠ dest ++ parts) →
        t.entryAt? l = w.files.entryAt? l ∨
        w.files.entryAt? l = none ∧ t.entryAt? l = some .directory ∧
          ∃ parts c, found parts c ∧ l <+: dest ++ parts

/-- A save under one key does not change what a request for another key brings. -/
def KeysApart (s : Store σ) : Prop :=
  ∀ h w w' key other paths project tree dest, s.Reached h w → s.Serves key tree →
    w.files.resolve project = .ok tree → w.files.Home tree →
    (s.save key paths project).run.run w = (.ok (), w') → other ≠ key → s.Serves other dest →
    (∀ found, h.lookup other = some found → w.files.Receives dest found) →
    ∃ before after t t',
      (s.restore other paths dest).run.run w = (.ok before, { w with files := t }) ∧
      (s.restore other paths dest).run.run w' = (.ok after, { w' with files := t' }) ∧
      before.hit = after.hit ∧
      ∀ parts c, t.HasFile (dest ++ parts) c ↔ t'.HasFile (dest ++ parts) c

/-- New directories do not change which files there are. -/
theorem hasFile_iff {t t' : FileTree} {l : Location} {p : Prop}
    (h : t'.entryAt? l = t.entryAt? l ∨
      t.entryAt? l = none ∧ t'.entryAt? l = some .directory ∧ p) (c : Content) :
    t'.HasFile l c ↔ t.HasFile l c := by
  unfold FileTree.HasFile
  rcases h with same | ⟨before, after, -⟩
  · rw [same]
  · simp [before, after]

theorem KeepsLatest.keysApart {s : Store σ} (keeps : s.KeepsLatest) : s.KeysApart := by
  intro h w w' key other paths project tree dest reached serves real home saved hne served receives
  have later := reached.saved serves real home saved
  have same : ∀ l, l <+: dest ∨ dest <+: l → w'.files.entryAt? l = w.files.entryAt? l := by
    intro l hl
    refine keeps.save_frame h w key paths project tree _ w' reached serves real home saved l ?_
    exact fun root hroot => (served root hroot).1.outside hl
  have inside : ∀ parts c, w'.files.HasFile (dest ++ parts) c ↔ w.files.HasFile (dest ++ parts) c :=
    fun parts => hasFile_iff (p := True) (.inl (same _ (.inr (List.prefix_append dest parts))))
  have lookup : ((key, w.files.Finds tree paths) :: h).lookup other = h.lookup other := by
    rw [History.lookup_saved, if_neg hne]
  match there : h.lookup other with
  | none =>
      obtain ⟨t, run, frame⟩ := keeps.miss h w other paths dest reached served there
      obtain ⟨t', run', frame'⟩ := keeps.miss _ w' other paths dest later served (lookup.trans there)
      refine ⟨_, _, t, t', run, run', rfl, fun parts c => ?_⟩
      rw [hasFile_iff (frame _), hasFile_iff (frame' _), inside]
  | some found =>
      have receives := receives found there
      obtain ⟨reason, t, run, files, frame⟩ :=
        keeps.hit h w other paths dest found reached served there receives
      obtain ⟨reason', t', run', files', frame'⟩ :=
        keeps.hit _ w' other paths dest found later served (lookup.trans there) (receives.congr same)
      refine ⟨_, _, t, t', run, run', rfl, fun parts c => ?_⟩
      by_cases kept : ∃ d, found parts d
      · obtain ⟨d, hd⟩ := kept
        have here := files parts d hd
        have there' := files' parts d hd
        constructor
        · intro hc
          exact hc.unique here ▸ there'
        · intro hc
          exact hc.unique there' ▸ here
      · have other : ∀ rest d, found rest d → dest ++ parts ≠ dest ++ rest := by
          intro rest d hd heq
          exact kept ⟨d, List.append_cancel_left heq ▸ hd⟩
        rw [hasFile_iff (frame _ other), hasFile_iff (frame' _ other), inside]

end Store

end Conveyor
