import Conveyor.Proofs.Archive.Failure
import Conveyor.Proofs.Archive.Listing
import Conveyor.Proofs.Cache.Directory

/-!
Restoring from whatever bytes stand where the archive of a key should be. Most archives that cannot be
extracted count as a miss. A request ends in a fault just where the extraction stops for a reason that
is not answered so: above all where the compressed stream breaks off or is damaged.
-/

namespace Conveyor

variable {σ : Type}

/-- The fault of a request whose extraction stops for a reason that is no miss. -/
def Tar.ExtractFailure.fault? : ExtractFailure → Option Fault
  | .refused _ | .reading .unreadable => none
  | .reading (.fault f) => some f
  | .nulInName => some .nulInPath
  | .noSuchMember name => some (.noSuchKey ("linkname " ++ Text.quoted name ++ " not found"))

namespace DirectoryStore

open Tar

theorem missOrFault_eq_error (key : String) (failure : ExtractFailure) (fault : Fault) :
    missOrFault key failure = .error fault ↔ failure.fault? = some fault := by
  unfold missOrFault ExtractFailure.fault?
  split <;> simp

/-- Why restoring some stored bytes may end in a fault. -/
inductive FaultReason (b : Bytes) : Fault → Prop
  | stream {f : Fault} (h : StreamFault (Gzip.stream b).ending f) : FaultReason b f
  | nulInName : FaultReason b .nulInPath
  | noSuchMember (name : String) :
      FaultReason b (.noSuchKey ("linkname " ++ Text.quoted name ++ " not found"))
  | endlessSearch : FaultReason b (.foreign "RecursionError" "maximum recursion depth exceeded")

theorem faultReason_of_expected {b : Bytes} {failure : ExtractFailure} {fault : Fault}
    (expected : (Listing.ofBytes b).Expected failure) (h : failure.fault? = some fault) :
    FaultReason b fault := by
  cases expected with
  | refused e => cases h
  | @listed r hr =>
      cases r with
      | unreadable => cases h
      | fault f =>
          cases h
          exact .stream (listFrom_failure hr)
  | endless =>
      cases h
      exact .endlessSearch
  | nulInName =>
      cases h
      exact .nulInName
  | noSuchMember name =>
      cases h
      exact .noSuchMember name

/-- A stream that breaks off before it yields anything lists nothing and fails. -/
theorem ofBytes_of_cut {b : Bytes} (empty : (Gzip.stream b).readable = #[])
    (cut : (Gzip.stream b).ending = .cutShort) :
    Listing.ofBytes b = ⟨[], none, some (.fault .archiveCutShort)⟩ := by
  have read : readAt (Gzip.stream b) 0 blockSize = .error .cutShort := by
    simp [readAt, empty, cut, blockSize]
  have find : findMember (Gzip.stream b) 2 [] 0 = .error (.stream .cutShort) := by
    rw [findMember, read]
  have list : listFrom (Gzip.stream b) true 2 [] 0 = ⟨[], none, some (.fault .archiveCutShort)⟩ := by
    rw [listFrom]
    simp [empty, find, ReadFailure.ofHeaderEnding]
  rw [Listing.ofBytes, empty]
  exact list

/-- Bytes that are no gzip stream list nothing and cannot be read. -/
theorem ofBytes_of_no_gzip {b : Bytes} (h : b.take 2 ≠ [0x1f, 0x8b]) :
    Listing.ofBytes b = ⟨[], none, some .unreadable⟩ := by
  cases b with
  | nil => rfl
  | cons c rest =>
      have header : Gzip.dropHeader (c :: rest) = .error .malformed := by
        rw [Gzip.dropHeader, if_pos h]
        rfl
      have stream : Gzip.stream (c :: rest) = ⟨#[], .malformed⟩ := by
        rw [Gzip.stream, List.length_cons, Gzip.readMembers, header]
        rfl
      rw [Listing.ofBytes, stream]
      rfl

/-- Restoring stored bytes ends in a fault just where the extraction stops for a reason that is not
answered as a miss. That is so for every stream that breaks off before it yields anything; bytes that
are no gzip stream are a miss. -/
theorem restore_raises_iff {w : World σ} {root project : Location} {key : String} {b : Bytes}
    {modified : Int} (wf : w.files.WellFormed)
    (stored : w.files.entryAt? (artifactPlace root key) = some (.file (.bytes b) modified))
    (ordinary : w.files.entryAt? project = some .directory) :
    (∀ fault, ((restore root key project).run.run w).1 = .error fault ↔
      ∃ failure, (((Listing.ofBytes b).extract project).run.run w.files).1 = .error failure ∧
        failure.fault? = some fault) ∧
    (∀ fault, ((restore root key project).run.run w).1 = .error fault → FaultReason b fault) ∧
    ((Gzip.stream b).readable = #[] → (Gzip.stream b).ending = .cutShort →
      ((restore root key project).run.run w).1 = .error .archiveCutShort) ∧
    (b.take 2 ≠ [0x1f, 0x8b] → ((restore root key project).run.run w).1 =
      .ok ⟨false, key, unusable "the archive cannot be read"⟩) := by
  have real := FileTree.resolve_eq (wf.named _ _ ordinary) (wf.linkFree ordinary (by simp))
  have exact_ : ∀ fault, ((restore root key project).run.run w).1 = .error fault ↔
      ∃ failure, (((Listing.ofBytes b).extract project).run.run w.files).1 = .error failure ∧
        failure.fault? = some fault := by
    intro fault
    rw [restore_stored wf stored real, extract_run, Listing.ofContent]
    match ((Listing.ofBytes b).extract project).run.run w.files with
    | (.ok (), t) => simp
    | (.error failure, t) => simp [missOrFault_eq_error]
  refine ⟨exact_, ?_, ?_, ?_⟩
  · intro fault h
    obtain ⟨failure, hrun, hfault⟩ := (exact_ fault).mp h
    exact faultReason_of_expected
      (Listing.failsIn_extract project w.files failure _ (Prod.ext hrun rfl)) hfault
  · intro empty cut
    rw [exact_]
    refine ⟨.reading (.fault .archiveCutShort), ?_, rfl⟩
    rw [ofBytes_of_cut empty cut]
    rfl
  · intro h
    rw [restore_stored wf stored real, extract_run, Listing.ofContent, ofBytes_of_no_gzip h]
    rfl

/-- A store in which the archive of a key breaks off after its first two bytes. -/
def cutStore : FileTree :=
  ((((({} : FileTree).set ["cache"] .directory).set ["cache", "_"] .directory).set
    ["cache", "_", "k.tar.gz"] (.file (.bytes [0x1f, 0x8b]) 0)).set ["project"] .directory)

theorem wellFormed_cutStore : cutStore.WellFormed := FileTree.wellFormed_of_entries (by decide)

theorem stored_cutStore :
    cutStore.entryAt? (artifactPlace ["cache"] "k") = some (.file (.bytes [0x1f, 0x8b]) 0) := rfl

theorem restore_raises_at_cut :
    cutStore.WellFormed ∧
      cutStore.entryAt? (artifactPlace ["cache"] "k") = some (.file (.bytes [0x1f, 0x8b]) 0) ∧
      cutStore.entryAt? ["project"] = some .directory ∧
      (((restore ["cache"] "k" ["project"]).run.run (⟨cutStore, [], ()⟩ : World Unit)).1 =
        .error .archiveCutShort) :=
  ⟨wellFormed_cutStore, stored_cutStore, rfl,
    (restore_raises_iff wellFormed_cutStore stored_cutStore rfl).2.2.1 rfl rfl⟩

/-- A damaged archive is not always a miss. -/
theorem restore_of_cut_is_no_miss :
    ¬ ∀ (w : World Unit) (root project : Location) (key : String) (b : Bytes) (modified : Int),
      w.files.WellFormed →
      w.files.entryAt? (artifactPlace root key) = some (.file (.bytes b) modified) →
      w.files.entryAt? project = some .directory →
      ∃ restored, ((restore root key project).run.run w).1 = .ok restored := by
  intro h
  obtain ⟨restored, hrun⟩ := h ⟨cutStore, [], ()⟩ ["cache"] ["project"] "k" [0x1f, 0x8b] 0
    wellFormed_cutStore stored_cutStore rfl
  have listing : Listing.ofBytes [0x1f, 0x8b] = ⟨[], none, some (.fault .archiveCutShort)⟩ :=
    ofBytes_of_cut rfl rfl
  have real : cutStore.resolve ["project"] = .ok ["project"] :=
    FileTree.resolve_eq (by decide) (wellFormed_cutStore.linkFree (e := .directory) rfl (by simp))
  rw [restore_stored wellFormed_cutStore stored_cutStore real, extract_run, Listing.ofContent,
    listing] at hrun
  cases hrun

end DirectoryStore

end Conveyor
