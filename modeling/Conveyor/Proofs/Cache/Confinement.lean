import Conveyor.Proofs.Archive.Confinement
import Conveyor.Proofs.Cache.Directory
import Conveyor.Proofs.Cache.Overwrite

/-!
What a request to a store changes outside of the project. An archive that goes down changes nothing there;
any other may, since members go where their names and the links before them lead, and a hard link changes
what it gives a second name. Before a request each file of a tree has one name, so no file of the project is
one outside of it.
-/

namespace Conveyor

open FileTree Tar

variable {σ : Type}

theorem FileTree.WellFormed.anchored {t : FileTree} (wf : t.WellFormed) {dest : Location}
    (directory : t.entryAt? dest = some .directory) : t.Anchored dest := by
  refine ⟨fun m hm => ?_, fun c hc => ?_⟩
  · by_cases itself : m = dest
    · rw [itself, directory]
    · exact wf.directory_of_prefix directory hm itself
  · obtain ⟨empty, dot, dots, -⟩ := (wf.named dest _ directory c hc).component
    exact ⟨not_or.mpr ⟨empty, dot⟩, dots⟩

namespace Tar

theorem run_makeRoom_of_stat {l : Location} {t : FileTree} {e : Entry}
    (named : (l.any fun c => c.toList.contains '\x00') = false) (parent : t.stat l.dropLast = .ok e) :
    (makeRoom l).run.run t = (.ok (), t) := by
  have there : (stands l.dropLast).run.run t = (.ok true, t) := by
    show (Except.ok (t.stat l.dropLast).toBool, t) = _
    rw [parent]
    rfl
  rw [makeRoom, if_neg (by rw [named]; simp), run_bind_ok there]
  rfl

/-- A file is written wherever its place leads, if a directory is there. -/
theorem Listing.run_place_file (listing : Listing) {root : Location} (fuel : Nat) (before : List Member)
    {name : String} (c : Content) {l place : Location} {t : FileTree} {e : Entry}
    (goes : target root name = l)
    (named : (l.any fun c => c.toList.contains '\x00') = false) (parent : t.stat l.dropLast = .ok e)
    (leads : t.follow l = .ok place) (missing : t.entryAt? place = none) :
    (listing.place root (fuel + 1) before (.mk name (.file c)) (target root name)).run.run t =
      (.ok (), t.set place (.file c 0)) := by
  have written : t.writeFile l c = .ok (t.set place (.file c 0)) := by
    simp [FileTree.writeFile, leads, missing, bind, Except.bind, pure, Except.pure]
  rw [goes, Listing.place, run_bind_ok (run_makeRoom_of_stat named parent)]
  exact run_change_ok written

theorem Listing.run_extract_whole {members : List Member} {root : Location} {t t' : FileTree}
    (placed : ((Listing.whole members).placeAll root [] members).run.run t = (.ok (), t')) :
    ((Listing.whole members).extract root).run.run t = (.ok (), t') := by
  unfold Listing.extract
  exact run_bind_ok placed

end Tar

namespace DirectoryStore

section Request

variable {w : World σ} (wf : w.files.WellFormed) {root project dest : Location} {key : String}
  (real : w.files.resolve project = .ok dest) (directory : w.files.entryAt? dest = some .directory)
  (noLinks : ∀ parts target, w.files.entryAt? (dest ++ parts) ≠ some (.link target)) {content : Content}
  {modified : Int} (stored : w.files.entryAt? (artifactPlace root key) = some (.file content modified))
  (inward : (Listing.ofContent content).Inward)
include wf real directory noLinks stored inward

/-- A request whose archive goes down stays inside of the project. -/
theorem run_restore_inside : ∃ answer t',
    (restore root key project).run.run w = (answer, { w with files := t' }) ∧
      Inside dest (fun _ => True) w.files t' := by
  have inside := Listing.extract_inside inward (wf.anchored directory) noLinks
  have run : (restore root key project).run.run w = _ :=
    (restore_stored wf stored real).trans (extract_run key dest content w)
  match extracted : ((Listing.ofContent content).extract dest).run.run w.files with
  | (.ok (), t') | (.error f, t') =>
      rw [extracted] at inside run
      exact ⟨_, t', run, inside⟩

/-- Whatever an archive holds that goes down with its names and the targets of its hard links, a request for
it changes nothing outside of the project, and the project remains a directory. -/
theorem restore_confined (c : CacheSpec) :
    ∃ answer t', ((store root).restoreCache c project key).run.run w = (answer, { w with files := t' }) ∧
      (∀ l, ¬dest <+: l → t'.entryAt? l = w.files.entryAt? l) ∧ t'.entryAt? dest = some .directory := by
  unfold Store.restoreCache
  split
  · exact ⟨_, w.files, rfl, fun _ _ => rfl, directory⟩
  · obtain ⟨answer, t', run, inside⟩ := run_restore_inside wf real directory noLinks stored inward
    exact ⟨answer, t', run, inside.outside, inside.directory⟩

end Request

section Sample

/-- A project beside a store in which one archive is kept. -/
def besideTree (members : List Member) : FileTree :=
  (((({} : FileTree).set ["p"] .directory).set ["c"] .directory).set ["c", "_"] .directory).set
    ["c", "_", "k.tar.gz"] (.file (.archive members) 0)

abbrev besideWorld (members : List Member) : World Unit := ⟨besideTree members, [], ()⟩

theorem wellFormed_besideTree (members : List Member) : (besideTree members).WellFormed := by
  refine .set (.set (.set (.set (FileTree.wellFormed_empty 0) ?_ ?_ rfl (.inl rfl)) ?_ ?_ rfl
    (.inl rfl)) ?_ ?_ rfl (.inl rfl)) ?_ ?_ rfl (.inr fun h => by cases h)
  all_goals decide

theorem noLinks_besideTree (members : List Member) (parts : List String) (target : String) :
    (besideTree members).entryAt? (["p"] ++ parts) ≠ some (.link target) := by
  intro link
  have entry := (FileTree.mem_entries_of_entryAt? link).resolve_left (by simp)
  simp [besideTree, FileTree.set, Table.put] at entry

theorem stored_besideTree (members : List Member) :
    (besideTree members).entryAt? (artifactPlace ["c"] "k") = some (.file (.archive members) 0) := by
  have place : artifactPlace ["c"] "k" = ["c", "_", "k.tar.gz"] := by decide
  rw [place]
  rfl

theorem real_besideTree (members : List Member) : (besideTree members).resolve ["p"] = .ok ["p"] :=
  (wellFormed_besideTree members).resolve_directory rfl

/-- A file under two names and a link, and nothing at or below the link. -/
def downward : List Member :=
  [.mk "d/f" (.file (.bytes [0x31])), .mk "d/l" (.link "f"), .mk "d/h" (.hardLink "d/f")]

theorem inward_downward : (Listing.ofContent (.archive downward)).Inward := by
  have entries : (Listing.ofContent (.archive downward)).entries = downward := rfl
  have down : LeadsDown "d/f" ∧ LeadsDown "d/l" ∧ LeadsDown "d/h" :=
    ⟨⟨by simp, by decide⟩, ⟨by simp, by decide⟩, ⟨by simp, by decide⟩⟩
  have apart : ¬pathParts "d/l" <+: pathParts "d/f" ∧ ¬pathParts "d/l" <+: pathParts "d/h" := by decide
  refine ⟨?_, ?_, ?_⟩ <;> rw [entries]
  · simp [downward, Member.name, down]
  · simp [downward, Clears, Member.name, Member.body, MemberBody.isLink, apart]
  · simp [downward, Clears, Member.name, Member.body, MemberBody.isLink, down, apart]

theorem restore_confined_downward : ∃ answer t',
    ((store ["c"]).restoreCache { paths := ["d"] } ["p"] "k").run.run (besideWorld downward) =
      (answer, { besideWorld downward with files := t' }) ∧
      (∀ l, ¬["p"] <+: l → t'.entryAt? l = (besideTree downward).entryAt? l) ∧
        t'.entryAt? ["p"] = some .directory :=
  restore_confined (w := besideWorld downward) (wellFormed_besideTree downward)
    (real_besideTree downward) rfl (noLinks_besideTree downward) (stored_besideTree downward)
    inward_downward { paths := ["d"] }

/-- Archives that put a file beside the project: by an absolute name, by double dots, and through a link. -/
def absolute : List Member := [.mk "/x" (.file (.bytes [0x31]))]

def dotted : List Member := [.mk "../x" (.file (.bytes [0x31]))]

def throughLink : List Member := [.mk "l" (.link ".."), .mk "l/x" (.file (.bytes [0x31]))]

/-- What the paths of the archives lead to. -/
theorem paths_beside {t : FileTree} (project : t.entryAt? ["p"] = some .directory)
    (missing : t.entryAt? ["x"] = none) :
    t.follow ["x"] = .ok ["x"] ∧ t.follow ["p", "..", "x"] = .ok ["x"] ∧
      t.stat ["p", ".."] = .ok .directory := by
  have short : ¬nameLimit < "x".utf8ByteSize ∧ ¬nameLimit < "p".utf8ByteSize := by decide
  have top : t.isDirectoryAt [] = true := rfl
  have inside : t.isDirectoryAt ["p"] = true := (t.isDirectoryAt_eq_true _).mpr project
  refine ⟨?_, ?_, ?_⟩
  · simp [FileTree.follow, FileTree.locate, top, missing, short.1]
  · simp [FileTree.follow, FileTree.locate, top, missing, short, project, inside, Location.parent]
  · simp [FileTree.stat, FileTree.follow, FileTree.locate, top, short, project, inside,
      Location.parent, bind, Except.bind, pure, Except.pure]

/-- What lies behind a link to the directory above. -/
theorem paths_throughLink {t : FileTree} (project : t.entryAt? ["p"] = some .directory)
    (missing : t.entryAt? ["x"] = none) (link : t.entryAt? ["p", "l"] = some (.link "..")) :
    t.follow ["p", "l", "x"] = .ok ["x"] ∧ t.stat ["p", "l"] = .ok .directory := by
  have short : ¬nameLimit < "x".utf8ByteSize ∧ ¬nameLimit < "p".utf8ByteSize ∧
      ¬nameLimit < "l".utf8ByteSize := by
    decide
  have top : t.isDirectoryAt [] = true := rfl
  have inside : t.isDirectoryAt ["p"] = true := (t.isDirectoryAt_eq_true _).mpr project
  have up : pathParts ".." = [".."] := by decide
  have start : FileTree.linkStart ["p"] ".." = ["p"] := by simp [FileTree.linkStart]
  refine ⟨?_, ?_⟩
  · simp [FileTree.follow, FileTree.locate, FileTree.linkLimit, top, missing, short, project, inside, link,
      up, start, Location.parent]
  · simp [FileTree.stat, FileTree.follow, FileTree.locate, FileTree.linkLimit, top, short, project, inside,
      link, up, start, Location.parent, bind, Except.bind, pure, Except.pure]

/-- What is left of the tree when the members are in place is what the request leaves. -/
theorem restore_beside {members : List Member} {t' : FileTree}
    (placed : ((Listing.whole members).placeAll ["p"] [] members).run.run (besideTree members) =
      (.ok (), t')) :
    ((restore ["c"] "k" ["p"]).run.run (besideWorld members)).2.files = t' := by
  have extracted : ((Listing.ofContent (.archive members)).extract ["p"]).run.run (besideTree members) =
      (.ok (), t') := Listing.run_extract_whole placed
  rw [restore_stored (wellFormed_besideTree members) (stored_besideTree members) (real_besideTree members),
    extract_run, extracted]

/-- A file that is written beside the project. -/
def spilled : Entry := .file (.bytes [0x31]) 0

theorem restore_absolute :
    ((restore ["c"] "k" ["p"]).run.run (besideWorld absolute)).2.files.entryAt? ["x"] = some spilled := by
  have goes : target ["p"] "/x" = ["x"] := by decide +kernel
  have top : (besideTree absolute).stat [] = .ok .directory :=
    (wellFormed_besideTree absolute).stat_eq rfl (by simp)
  obtain ⟨leads, -, -⟩ := paths_beside (t := besideTree absolute) rfl rfl
  have written :=
    (Listing.whole absolute).run_place_file 2 [] (.bytes [0x31]) goes (by decide) top leads rfl
  rw [restore_beside (run_bind_ok written)]
  rfl

theorem restore_dotted :
    ((restore ["c"] "k" ["p"]).run.run (besideWorld dotted)).2.files.entryAt? ["x"] = some spilled := by
  have goes : target ["p"] "../x" = ["p", "..", "x"] := by decide +kernel
  obtain ⟨-, leads, parent⟩ := paths_beside (t := besideTree dotted) rfl rfl
  have written :=
    (Listing.whole dotted).run_place_file 2 [] (.bytes [0x31]) goes (by decide) parent leads rfl
  rw [restore_beside (run_bind_ok written)]
  rfl

theorem restore_throughLink :
    ((restore ["c"] "k" ["p"]).run.run (besideWorld throughLink)).2.files.entryAt? ["x"] =
      some spilled := by
  have goes : target ["p"] "l" = ["p", "l"] ∧ target ["p"] "l/x" = ["p", "l", "x"] := by decide +kernel
  obtain ⟨t, linked, view⟩ := (Listing.whole throughLink).run_place_link ["p"] 3 [] "l"
    (l := ["p", "l"]) (wellFormed_besideTree throughLink).above (by decide) rfl
    (by intro h; cases h) (show ".." ≠ "" by decide)
  obtain ⟨leads, parent⟩ := paths_throughLink (t := t) (view _) (view _) (view _)
  have written := (Listing.whole throughLink).run_place_file 3 [.mk "l" (.link "..")] (.bytes [0x31]) goes.2
    (by decide) parent leads (view _)
  rw [← goes.1] at linked
  rw [restore_beside ((run_bind_ok linked).trans (run_bind_ok written))]
  exact (FileTree.entryAt?_set t (by simp) _ _).trans (if_pos rfl)

/-- A member with an absolute name, one with double dots in its name, and one behind a link: with none of
the archives is what is outside of the project safe. -/
theorem restore_unconfined : ¬ ∃ members ∈ [absolute, dotted, throughLink],
    ∀ (w : World Unit) (root project dest : Location) (key : String) (modified : Int), w.files.WellFormed →
      w.files.resolve project = .ok dest → w.files.entryAt? dest = some .directory →
      (∀ parts target, w.files.entryAt? (dest ++ parts) ≠ some (.link target)) →
      w.files.entryAt? (artifactPlace root key) = some (.file (.archive members) modified) →
      ∀ l, ¬dest <+: l →
        ((restore root key project).run.run w).2.files.entryAt? l = w.files.entryAt? l := by
  rintro ⟨members, among, confined⟩
  have same : ((restore ["c"] "k" ["p"]).run.run (besideWorld members)).2.files.entryAt? ["x"] = none :=
    confined (besideWorld members) ["c"] ["p"] ["p"] "k" 0 (wellFormed_besideTree members)
      (real_besideTree members) rfl (noLinks_besideTree members) (stored_besideTree members) ["x"]
      (by decide)
  simp only [List.mem_cons, List.not_mem_nil, or_false] at among
  rcases among with rfl | rfl | rfl
  · cases restore_absolute.symm.trans same
  · cases restore_dotted.symm.trans same
  · cases restore_throughLink.symm.trans same

end Sample

end DirectoryStore

end Conveyor
