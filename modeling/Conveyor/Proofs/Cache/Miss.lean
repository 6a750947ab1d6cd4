import Conveyor.Proofs.Cache.Directory

/-!
What a miss leaves. A request that finds nothing only opens the directory of its key. One whose archive
cannot be put in place whole leaves the files before the first that finds no room; so the project is as
it was just where those files stood there already.
-/

namespace Conveyor

/-- Two entries that cannot be told apart: files have the same bytes, links the same target. -/
inductive Entry.Alike : Entry → Entry → Prop
  | directory : Alike .directory .directory
  | file {c d : Content} (bytes : c.toBytes = d.toBytes) (m n : Int) : Alike (.file c m) (.file d n)
  | link (target : String) : Alike (.link target) (.link target)

theorem Entry.Alike.refl : ∀ e : Entry, e.Alike e
  | .directory => .directory
  | .file _ m => .file rfl m m
  | .link target => .link target

namespace FileTree

/-- Nothing is created, changed or removed at a directory and below it. -/
def SameBelow (t t' : FileTree) (dest : Location) : Prop :=
  ∀ parts, Option.Rel Entry.Alike (t.entryAt? (dest ++ parts)) (t'.entryAt? (dest ++ parts))

/-- A file finds no room at a place: a directory stands there, or a file above it. -/
inductive NoRoom (t : FileTree) (l : Location) : Prop
  | directory (h : t.entryAt? l = some .directory)
  | below {m : Location} {c : Content} (above : m <+: l) (hne : m ≠ l) (file : t.HasFile m c)

theorem rel_of_eq {t t' : FileTree} {l : Location} (h : t'.entryAt? l = t.entryAt? l) :
    Option.Rel Entry.Alike (t.entryAt? l) (t'.entryAt? l) := by
  rw [h]
  cases t.entryAt? l with
  | none => exact .none
  | some e => exact .some (.refl e)

section Below

variable {t : FileTree} (wf : t.WellFormed) {l m : Location} {c : Content} (file : t.HasFile m c)
include wf file

theorem WellFormed.none_below_file (hm : m <+: l) (hne : m ≠ l) : t.entryAt? l = none := by
  by_contra there
  obtain ⟨e, he⟩ := Option.ne_none_iff_exists'.mp there
  obtain ⟨n, file⟩ := file
  rw [wf.directory_of_prefix he hm hne] at file
  cases file

theorem WellFormed.linkFree_below_file (hm : m <+: l) : t.LinkFree l := by
  obtain ⟨n, entry⟩ := file
  intro p hp target link
  rcases List.prefix_or_prefix_of_prefix hm hp with h | h
  · by_cases hne : m = p
    · rw [← hne, entry] at link
      cases link
    · rw [wf.none_below_file ⟨n, entry⟩ h hne] at link
      cases link
  · exact wf.linkFree entry (by simp) p h target link

/-- A path that a file interrupts leads nowhere. -/
theorem WellFormed.locate_below_file (names : ∀ n ∈ l, IsName n) (hm : m <+: l) (hne : m ≠ l)
    (last : Bool) : ∃ r, t.locate last linkLimit [] l = .error r ∧ r ≠ .alreadyExists := by
  have free := wf.linkFree_below_file file hm
  have step := t.locate_plain last linkLimit [] l names rfl fun r hr _ => free r hr
  generalize t.locate last linkLimit [] l = answer at step
  cases step with
  | there dirs =>
      obtain ⟨n, entry⟩ := file
      have above := dirs m hm hne
      rw [List.nil_append, entry] at above
      cases above
  | missing _ _ _ => exact ⟨_, rfl, by simp⟩
  | blocked _ _ _ => exact ⟨_, rfl, by simp⟩

end Below

end FileTree

open FileTree

namespace Tar

theorem run_stands_file {t : FileTree} (wf : t.WellFormed) {l : Location} {c : Content}
    (file : t.HasFile l c) : (stands l).run.run t = (.ok true, t) := by
  obtain ⟨n, entry⟩ := file
  show (Except.ok (t.stat l).toBool, t) = _
  rw [wf.stat_eq entry (by simp)]
  rfl

/-- No directory is made below a file. The induction is on the way up to the file. -/
theorem run_makeMissing_below_file {t : FileTree} (wf : t.WellFormed) {l m : Location} {c : Content}
    (names : ∀ n ∈ l, IsName n) (hm : m <+: l) (hne : m ≠ l) (file : t.HasFile m c) :
    ∃ e : FileError, e.refusal ≠ .alreadyExists ∧
      (makeMissing l).run.run t = (.error (.refused e), t) := by
  have above := prefix_dropLast hm hne
  have last : ∃ e : FileError, e.refusal ≠ .alreadyExists ∧
      (change l (·.makeDirectory l)).run.run t = (.error (.refused e), t) := by
    obtain ⟨r, place, hr⟩ := wf.locate_below_file file names hm hne false
    have refused : t.makeDirectory l = .error r := by
      rw [makeDirectory, followParent, place]
      rfl
    exact ⟨⟨r, Location.text l⟩, hr, run_change_error refused⟩
  rw [makeMissing]
  split
  · rename_i proper
    by_cases same : m = l.dropLast
    · rw [run_bind_ok (run_stands_file wf (same ▸ file))]
      exact last
    · have shorter : l.dropLast.length < l.length :=
        length_dropLast_lt fun h => proper (by rw [h, List.dropLast_nil])
      have namesAbove : ∀ n ∈ l.dropLast, IsName n := fun n hn => names n (List.mem_of_mem_dropLast hn)
      have missing := run_stands_missing namesAbove (wf.linkFree_below_file file above)
        (wf.none_below_file file above same)
      obtain ⟨e, he, run⟩ := run_makeMissing_below_file wf namesAbove above same file
      refine ⟨e, he, ?_⟩
      rw [run_bind_ok missing]
      simp only [Bool.not_false, if_true]
      refine run_bind_error ?_
      rw [run_onRefusal_refused run, if_neg he]
      rfl
  · exact last
termination_by l.length

/-- A file that finds no room is refused, and nothing is changed. -/
theorem Listing.run_place_noRoom (listing : Listing) (root : Location) (fuel : Nat)
    (before : List Member) (name : String) (c : Content) {t : FileTree} (wf : t.WellFormed)
    {l : Location} (names : ∀ n ∈ l, IsName n) (noRoom : t.NoRoom l) :
    ∃ e, (listing.place root (fuel + 1) before (.mk name (.file c)) l).run.run t =
      (.error (.refused e), t) := by
  rw [Listing.place]
  cases noRoom with
  | directory h =>
      have refused : t.writeFile l c = .error .isDirectory := by
        simp only [writeFile, wf.follow_eq names (wf.above l _ h) (by simp [h]), bind, Except.bind, h]
        rfl
      rw [run_bind_ok (run_makeRoom_directory wf.above names (wf.above l _ h))]
      exact ⟨_, run_change_error refused⟩
  | @below m d above hne file =>
      have inside := prefix_dropLast above hne
      by_cases same : m = l.dropLast
      · obtain ⟨r, place, -⟩ := wf.locate_below_file file names above hne true
        have refused : t.writeFile l c = .error r := by
          rw [writeFile, follow, place]
          rfl
        rw [run_bind_ok (run_makeRoom_of_stands names (run_stands_file wf (same ▸ file)))]
        exact ⟨_, run_change_error refused⟩
      · have namesAbove : ∀ n ∈ l.dropLast, IsName n := fun n hn => names n (List.mem_of_mem_dropLast hn)
        obtain ⟨e, -, run⟩ := run_makeMissing_below_file wf namesAbove inside same file
        have missing := run_stands_missing namesAbove (wf.linkFree_below_file file inside)
          (wf.none_below_file file inside same)
        refine ⟨e, run_bind_error ?_⟩
        rw [makeRoom, if_neg (by rw [noNul_of_names names]; simp), run_bind_ok missing]
        exact run

end Tar

namespace FileTree

variable {t t' : FileTree} {dest : Location} {f : KeptFile} {files done rest : List KeptFile}

/-- In a directory without links below it a file finds room or not. -/
theorem WellFormed.room (wf : t.WellFormed) (directory : t.entryAt? dest = some .directory)
    (noLinks : ∀ parts target, t.entryAt? (dest ++ parts) ≠ some (.link target)) {parts : List String}
    (hne : parts ≠ []) : t.NoRoom (dest ++ parts) ∨ t.Passable (dest ++ parts.dropLast) ∧
      (t.entryAt? (dest ++ parts) = none ∨ ∃ c, t.HasFile (dest ++ parts) c) := by
  by_cases blocked : t.NoRoom (dest ++ parts)
  · exact .inl blocked
  · refine .inr ⟨fun m hm => ?_, ?_⟩
    · have proper : m ≠ dest ++ parts := by
        rintro rfl
        have := hm.length_le
        have := List.length_pos_of_ne_nil hne
        simp only [List.length_append, List.length_dropLast] at *
        omega
      have above : m <+: dest ++ parts :=
        hm.trans ((List.prefix_append_right_inj dest).mpr parts.dropLast_prefix)
      match h : t.entryAt? m with
      | none => exact .inl rfl
      | some .directory => exact .inr rfl
      | some (.file c n) => exact absurd (.below above proper ⟨n, h⟩) blocked
      | some (.link target) =>
          rcases List.prefix_or_prefix_of_prefix hm (List.prefix_append dest _) with hm | ⟨p, rfl⟩
          · exact absurd h (wf.linkFree directory (by simp) m hm target)
          · exact absurd h (noLinks p target)
    · match h : t.entryAt? (dest ++ parts) with
      | none => exact .inl rfl
      | some .directory => exact absurd (.directory h) blocked
      | some (.file c n) => exact .inr ⟨c, n, h⟩
      | some (.link target) => exact absurd h (noLinks parts target)

/-- Files up to the first that finds no room. -/
theorem WellFormed.received (wf : t.WellFormed) (directory : t.entryAt? dest = some .directory)
    (noLinks : ∀ parts target, t.entryAt? (dest ++ parts) ≠ some (.link target))
    (proper : ∀ f ∈ files, f.1 ≠ []) :
    ∃ done rest, files = done ++ rest ∧ t.Receives dest (.ofFiles done) ∧
      ∀ f ∈ rest.head?, t.NoRoom (dest ++ f.1) := by
  have none : t.Receives dest (.ofFiles []) :=
    ⟨wf.named dest _ directory, wf.passable directory, fun _ _ h => (List.not_mem_nil h).elim,
      fun _ _ h => (List.not_mem_nil h).elim⟩
  induction files with
  | nil => exact ⟨[], [], rfl, none, by simp⟩
  | cons f more ih =>
      obtain ⟨done, rest, rfl, receives, stop⟩ := ih fun g hg => proper g (List.mem_cons_of_mem f hg)
      rcases wf.room directory noLinks (proper f (by simp)) with blocked | ⟨pass, place⟩
      · exact ⟨[], f :: (done ++ rest), rfl, none, by simpa using blocked⟩
      · refine ⟨f :: done, rest, rfl, ⟨receives.named, receives.itself, ?_, ?_⟩, stop⟩
        · intro parts c h
          rcases List.mem_cons.mp h with rfl | h
          · exact pass
          · exact receives.above parts c h
        · intro parts c h
          rcases List.mem_cons.mp h with rfl | h
          · exact place
          · exact receives.place parts c h

/-- Files that have been put in place make no room for another one. -/
theorem Unpacked.noRoom (unpacked : t.Unpacked t' dest (.ofFiles done))
    (receives : t.Receives dest (.ofFiles done)) (coherent : (Catch.ofFiles (done ++ f :: rest)).Coherent)
    (h : t.NoRoom (dest ++ f.1)) : t'.NoRoom (dest ++ f.1) := by
  have here : Catch.ofFiles (done ++ f :: rest) f.1 f.2 := by simp [Catch.ofFiles]
  have before : ∀ parts c, Catch.ofFiles done parts c → Catch.ofFiles (done ++ f :: rest) parts c :=
    fun parts c hc => List.mem_append_left _ hc
  cases h with
  | directory h =>
      refine .directory ((unpacked.others _ fun parts c hc above => ?_).trans h)
      have same := coherent.apart f.1 f.2 parts c here (before parts c hc)
        ((List.prefix_append_right_inj dest).mp above)
      rcases receives.place parts c hc with none | ⟨d, n, file⟩
      · simp [same, none] at h
      · simp [same, file] at h
  | @below m d above hne file =>
      have untouched : t'.entryAt? m = t.entryAt? m := unpacked.others m fun parts c hc hm => by
        obtain ⟨n, entry⟩ := file
        by_cases same : m = dest ++ parts
        · subst same
          have inside := (List.prefix_append_right_inj dest).mp above
          exact hne (by rw [coherent.apart parts c f.1 f.2 (before parts c hc) here inside])
        · have way := prefix_dropLast hm same
          rw [List.dropLast_append_of_ne_nil (coherent.proper parts c (before parts c hc))] at way
          rcases receives.above parts c hc m way with h | h <;> simp [h] at entry
      exact .below above hne (c := d) (by rwa [HasFile, untouched])

/-- Files in place leave a directory as it was just where they stood there already. -/
theorem Unpacked.sameBelow_iff (wf : t.WellFormed) (unpacked : t.Unpacked t' dest (.ofFiles done))
    (receives : t.Receives dest (.ofFiles done)) (coherent : (Catch.ofFiles done).Coherent) :
    t.SameBelow t' dest ↔
      ∀ f ∈ done, ∃ d, t.HasFile (dest ++ f.1) d ∧ d.toBytes = f.2.toBytes := by
  constructor
  · intro same f hf
    obtain ⟨n, file⟩ := unpacked.files f.1 f.2 hf
    have alike := same f.1
    rw [file] at alike
    generalize h : t.entryAt? (dest ++ f.1) = entry at alike
    cases alike with
    | some alike =>
        cases alike with
        | @file d _ bytes m _ => exact ⟨d, ⟨m, h⟩, bytes⟩
  · intro stood parts
    by_cases hit : ∃ c, Catch.ofFiles done parts c
    · obtain ⟨c, hc⟩ := hit
      obtain ⟨n, file⟩ := unpacked.files parts c hc
      obtain ⟨d, ⟨m, before⟩, bytes⟩ := stood (parts, c) hc
      rw [file, before]
      exact .some (.file bytes m n)
    · have other : ∀ q c, Catch.ofFiles done q c → dest ++ parts ≠ dest ++ q :=
        fun q c hq h => hit ⟨c, List.append_cancel_left h ▸ hq⟩
      rcases unpacked.frame coherent receives other with same | ⟨absent, -, q, c, hq, above⟩
      · exact rel_of_eq same
      · -- what lies above a file that stood there was a directory already
        obtain ⟨d, ⟨m, before⟩, -⟩ := stood (q, c) hq
        rw [wf.directory_of_prefix before above (other q c hq)] at absent
        cases absent

end FileTree

namespace Tar.Listing

variable {t : FileTree} {dest : Location} {files : List KeptFile}

/-- A listing of files; the last may be one whose data breaks off. -/
def Lists (listing : Listing) (files : List KeptFile) : Prop :=
  listing.members ++ (listing.broken.map fun b => Member.mk b.1 (.file (.bytes b.2))).toList =
    files.map KeptFile.member

/-- An archive that a store has written lists the files that it was made of. -/
theorem lists_archive (files : List KeptFile) :
    (ofContent (.archive (files.map KeptFile.member))).Lists files :=
  List.append_nil _

/-- How the extraction of files ends that are left with `rest`: all are in place, reading fails after
them, or the first of the rest is refused. -/
inductive Ends (listing : Listing) : List KeptFile → Except ExtractFailure Unit → Prop
  | whole (h : listing.failure = none) : Ends listing [] (.ok ())
  | unread {r : ReadFailure} (h : listing.failure = some r) : Ends listing [] (.error (.reading r))
  | refused (f : KeptFile) (rest : List KeptFile) (e : FileError) :
      Ends listing (f :: rest) (.error (.refused e))

theorem placeAll_append (listing : Listing) (root : Location) (before first second : List Member) :
    listing.placeAll root before (first ++ second) = (do
      listing.placeAll root before first
      listing.placeAll root (before ++ first) second) := by
  induction first generalizing before with
  | nil => simp [placeAll]
  | cons m rest ih => simp [placeAll, ih]

/-- What is left to do once everything is in place. -/
def finish (listing : Listing) : Extraction Unit :=
  match listing.failure with
  | some f => throw (.reading f)
  | none => pure ()

theorem extract_eq {listing : Listing} (lists : listing.Lists files) (dest : Location) :
    listing.extract dest = (do
      listing.placeAll dest [] (files.map KeptFile.member)
      listing.finish) := by
  rw [← lists, placeAll_append, extract]
  cases listing.broken with
  | none =>
      simp only [Option.map_none, Option.toList_none, placeAll, bind_pure_unit]
      rfl
  | some b =>
      simp only [Option.map_some, Option.toList_some, placeAll, bind_assoc, pure_bind]
      rfl

theorem run_extract_files {listing : Listing} (lists : listing.Lists files) (wf : t.WellFormed)
    (directory : t.entryAt? dest = some .directory)
    (noLinks : ∀ parts target, t.entryAt? (dest ++ parts) ≠ some (.link target))
    (coherent : (Catch.ofFiles files).Coherent) :
    ∃ done rest answer t', files = done ++ rest ∧ t.Receives dest (.ofFiles done) ∧
      (∀ f ∈ rest.head?, t.NoRoom (dest ++ f.1)) ∧
      (listing.extract dest).run.run t = (answer, t') ∧ listing.Ends rest answer ∧
      t.Unpacked t' dest (.ofFiles done) := by
  obtain ⟨done, rest, rfl, receives, stop⟩ := wf.received directory noLinks
    fun f hf => coherent.proper f.1 f.2 hf
  have coherentDone := coherent.mono fun parts c h => List.mem_append_left rest h
  obtain ⟨t', run, unpacked⟩ := listing.run_placeAll [] wf coherentDone receives
  rw [extract_eq lists, List.map_append, placeAll_append]
  cases rest with
  | nil =>
      have placed : (do
          listing.placeAll dest [] (done.map KeptFile.member)
          listing.placeAll dest ([] ++ done.map KeptFile.member) ([].map KeptFile.member)).run.run t =
          (.ok (), t') := run_bind_ok run
      match failure : listing.failure with
      | none =>
          refine ⟨done, [], _, t', rfl, receives, stop, ?_, .whole failure, unpacked⟩
          rw [run_bind_ok placed, finish, failure]
          rfl
      | some r =>
          refine ⟨done, [], _, t', rfl, receives, stop, ?_, .unread failure, unpacked⟩
          rw [run_bind_ok placed, finish, failure]
          rfl
  | cons f more =>
      have noRoom := unpacked.noRoom receives coherent (stop f rfl)
      have here : Catch.ofFiles (done ++ f :: more) f.1 f.2 := by simp [Catch.ofFiles]
      have names : ∀ n ∈ dest ++ f.1, IsName n :=
        List.forall_mem_append.mpr ⟨receives.named, coherent.named f.1 f.2 here⟩
      obtain ⟨e, refused⟩ := listing.run_place_noRoom dest (listing.members.length + 1)
        ([] ++ done.map KeptFile.member) f.name f.2 unpacked.wellFormed names noRoom
      refine ⟨done, f :: more, _, t', rfl, receives, stop, ?_, .refused f more e, unpacked⟩
      rw [bind_assoc, run_bind_ok run, List.map_cons, placeAll, bind_assoc]
      refine run_bind_error ?_
      have there : target dest f.member.name = dest ++ f.1 := (KeptFile.place_eq coherent here dest).2
      rw [there]
      exact refused

end Tar.Listing

namespace DirectoryStore

variable {σ : Type} {w : World σ} {root project dest : Location} {key : String}

/-- A request that finds nothing leaves a directory as it was, unless it makes the directory of its key
there. -/
theorem Ready.restore_missing_same (ready : Ready w.files root key)
    (missing : w.files.entryAt? (artifactPlace root key) = none) (project dest : Location) : ∃ t',
    (restore root key project).run.run w = (.ok ⟨false, key, "cache miss"⟩, { w with files := t' }) ∧
      (w.files.SameBelow t' dest ↔
        w.files.entryAt? (keyDirectory root key) = some .directory ∨ ¬ dest <+: keyDirectory root key) := by
  obtain ⟨t', run, opened⟩ := ready.restore_missing missing project
  refine ⟨t', run, fun same => ?_, fun old parts => rel_of_eq ?_⟩
  · by_cases inside : dest <+: keyDirectory root key
    · obtain ⟨parts, hparts⟩ := inside
      have alike := same parts
      rw [hparts, opened.itself] at alike
      rcases ready.directory with absent | there
      · rw [absent] at alike
        cases alike
      · exact .inl there
    · exact .inr inside
  · rw [opened.view]
    split
    · rename_i above
      rcases old with there | outside
      · exact ((FileTree.Opened.of_directory ready.wellFormed there).above above).symm
      · exact absurd ((List.prefix_append dest parts).trans above) outside
    · rfl

/-- A request for stored files leaves those before the first that finds no room; it is a miss just
where there is such a file or the archive cannot be read to its end. -/
theorem restore_files (wf : w.files.WellFormed) (real : w.files.resolve project = .ok dest)
    (directory : w.files.entryAt? dest = some .directory)
    (noLinks : ∀ parts target, w.files.entryAt? (dest ++ parts) ≠ some (.link target))
    {content : Content} {modified : Int} {files : List KeptFile}
    (stored : w.files.entryAt? (artifactPlace root key) = some (.file content modified))
    (lists : (Tar.Listing.ofContent content).Lists files) (coherent : (Catch.ofFiles files).Coherent) :
    ∃ done rest answer t', files = done ++ rest ∧ w.files.Receives dest (.ofFiles done) ∧
      (∀ f ∈ rest.head?, w.files.NoRoom (dest ++ f.1)) ∧
      (restore root key project).run.run w = (answer, { w with files := t' }) ∧
      ((∃ reason, answer = .ok ⟨false, key, reason⟩) ↔
        rest ≠ [] ∨ (Tar.Listing.ofContent content).failure = some .unreadable) ∧
      (w.files.SameBelow t' dest ↔
        ∀ f ∈ done, ∃ d, w.files.HasFile (dest ++ f.1) d ∧ d.toBytes = f.2.toBytes) := by
  obtain ⟨done, rest, answer, t', rfl, receives, stop, run, ends, unpacked⟩ :=
    Tar.Listing.run_extract_files lists wf directory noLinks coherent
  have same := unpacked.sameBelow_iff wf receives (coherent.mono fun _ _ h => List.mem_append_left _ h)
  have run' := extract_run key dest content w
  rw [run] at run'
  rw [restore_stored wf stored real, run']
  cases ends with
  | whole h => exact ⟨done, [], _, t', rfl, receives, stop, rfl, by simp [h], same⟩
  | @unread r h =>
      refine ⟨done, [], _, t', rfl, receives, stop, rfl, ?_, same⟩
      cases r <;> simp [h, missOrFault]
  | refused f more e =>
      refine ⟨done, f :: more, _, t', rfl, receives, stop, rfl, ?_, same⟩
      simp [missOrFault]

/-- Where a miss leaves the project as it was. Where nothing is stored it does, unless the directory of
the key is made in the project. Where the archive holds files, a project without links is left with
those before the first that finds no room; so it does just where these stood there already. -/
theorem miss_untouched_iff (wf : w.files.WellFormed) (real : w.files.resolve project = .ok dest)
    (directory : w.files.entryAt? dest = some .directory)
    (noLinks : ∀ parts target, w.files.entryAt? (dest ++ parts) ≠ some (.link target)) :
    (Ready w.files root key → w.files.entryAt? (artifactPlace root key) = none → ∃ t',
      (restore root key project).run.run w = (.ok ⟨false, key, "cache miss"⟩, { w with files := t' }) ∧
        (w.files.SameBelow t' dest ↔ w.files.entryAt? (keyDirectory root key) = some .directory ∨
          ¬ dest <+: keyDirectory root key)) ∧
    ∀ content modified files,
      w.files.entryAt? (artifactPlace root key) = some (.file content modified) →
      (Tar.Listing.ofContent content).Lists files → (Catch.ofFiles files).Coherent →
      ∃ done rest answer t', files = done ++ rest ∧ w.files.Receives dest (.ofFiles done) ∧
        (∀ f ∈ rest.head?, w.files.NoRoom (dest ++ f.1)) ∧
        (restore root key project).run.run w = (answer, { w with files := t' }) ∧
        ((∃ reason, answer = .ok ⟨false, key, reason⟩) ↔
          rest ≠ [] ∨ (Tar.Listing.ofContent content).failure = some .unreadable) ∧
        (w.files.SameBelow t' dest ↔
          ∀ f ∈ done, ∃ d, w.files.HasFile (dest ++ f.1) d ∧ d.toBytes = f.2.toBytes) :=
  ⟨fun ready missing => ready.restore_missing_same missing project dest,
    fun _ _ _ stored lists coherent => restore_files wf real directory noLinks stored lists coherent⟩

section Sample

def blockedFiles : List KeptFile := [(["a"], .bytes [0x31]), (["b"], .bytes [0x32])]

/-- A project in which a directory stands in the place of the second stored file. -/
def blockedTree : FileTree :=
  (((((({} : FileTree).set ["cache"] .directory).set ["cache", "_"] .directory).set
    ["cache", "_", "k.tar.gz"] (.file (.archive (blockedFiles.map KeptFile.member)) 0)).set
    ["project"] .directory).set ["project", "b"] .directory)

theorem entryAt?_blockedTree {parts : List String} {e : Entry}
    (h : blockedTree.entryAt? ("project" :: parts) = some e) :
    (parts = [] ∨ parts = ["b"]) ∧ e = .directory := by
  have mem := (FileTree.mem_entries_of_entryAt? h).resolve_left (by simp)
  simp [blockedTree, FileTree.set, Table.put] at mem
  rcases mem with ⟨rfl, rfl⟩ | ⟨rfl, rfl⟩ <;> simp

theorem wellFormed_blockedTree : blockedTree.WellFormed := FileTree.wellFormed_of_entries (by decide)

theorem coherent_blockedFiles : (Catch.ofFiles blockedFiles).Coherent := by
  have cases : ∀ {parts c}, Catch.ofFiles blockedFiles parts c →
      parts = ["a"] ∧ c = .bytes [0x31] ∨ parts = ["b"] ∧ c = .bytes [0x32] := by
    intro parts c h
    simpa [Catch.ofFiles, blockedFiles] using h
  constructor
  · intro parts c h
    rcases cases h with ⟨rfl, -⟩ | ⟨rfl, -⟩ <;> simp
  · intro parts c h
    rcases cases h with ⟨rfl, -⟩ | ⟨rfl, -⟩ <;> decide
  · intro p c q d hp hq
    rcases cases hp with ⟨rfl, -⟩ | ⟨rfl, -⟩ <;> rcases cases hq with ⟨rfl, -⟩ | ⟨rfl, -⟩ <;> simp
  · intro parts c d hc hd
    rcases cases hc with ⟨rfl, rfl⟩ | ⟨rfl, rfl⟩ <;> rcases cases hd with ⟨h, rfl⟩ | ⟨h, rfl⟩ <;>
      first | rfl | simp at h

/-- The first file of the sample finds room, and the second does not. -/
theorem blockedFiles_split {done rest : List KeptFile} (split : blockedFiles = done ++ rest)
    (receives : blockedTree.Receives ["project"] (.ofFiles done))
    (stop : ∀ f ∈ rest.head?, blockedTree.NoRoom (["project"] ++ f.1)) :
    (["a"], .bytes [0x31]) ∈ done ∧ rest ≠ [] := by
  have blocked : ((["b"], .bytes [0x32]) : KeptFile) ∉ done := by
    intro h
    rcases receives.place _ _ h with absent | ⟨c, n, file⟩
    · cases absent
    · cases file
  constructor
  · match done with
    | [] =>
        have head : rest.head? = some (["a"], .bytes [0x31]) := by rw [← List.nil_append rest, ← split]; rfl
        cases stop _ head with
        | directory h => cases h
        | @below m c above hne file =>
            obtain ⟨n, file⟩ := file
            have project : blockedTree.Passable ["project"] := wellFormed_blockedTree.passable rfl
            rcases project m (prefix_dropLast above hne) with h | h <;> simp [h] at file
    | f :: more =>
        rw [← (List.cons.inj split).1]
        exact List.mem_cons_self
  · rintro rfl
    rw [List.append_nil] at split
    exact blocked (split ▸ by simp [blockedFiles])

theorem real_blockedTree : blockedTree.resolve ["project"] = .ok ["project"] :=
  wellFormed_blockedTree.resolve_directory rfl

theorem noLinks_blockedTree (parts : List String) (target : String) :
    blockedTree.entryAt? (["project"] ++ parts) ≠ some (.link target) := by
  intro h
  cases (entryAt?_blockedTree h).2

def blockedWorld : World Unit := ⟨blockedTree, [], ()⟩

theorem restore_blocked_leaves_first : ∃ reason t',
    (restore ["cache"] "k" ["project"]).run.run blockedWorld =
        (.ok ⟨false, "k", reason⟩, { blockedWorld with files := t' }) ∧
      ¬ blockedTree.SameBelow t' ["project"] := by
  obtain ⟨-, archives⟩ := @miss_untouched_iff Unit blockedWorld ["cache"] ["project"] ["project"] "k"
    wellFormed_blockedTree real_blockedTree rfl noLinks_blockedTree
  obtain ⟨done, rest, answer, t', split, receives, stop, run, missed, same⟩ :=
    archives _ 0 blockedFiles rfl (Tar.Listing.lists_archive _) coherent_blockedFiles
  obtain ⟨first, left⟩ := blockedFiles_split split receives stop
  obtain ⟨reason, rfl⟩ := missed.mpr (.inl left)
  refine ⟨reason, t', run, fun unchanged => ?_⟩
  obtain ⟨d, ⟨n, there⟩, -⟩ := same.mp unchanged _ first
  cases there

/-- A miss may leave the project changed. -/
theorem miss_may_change_project :
    ¬ ∀ (w w' : World Unit) (root project : Location) (key : String) (restored : Restored),
      w.files.WellFormed → w.files.entryAt? project = some .directory →
      (restore root key project).run.run w = (.ok restored, w') → restored.hit = false →
      w.files.SameBelow w'.files project := by
  intro untouched
  obtain ⟨done, rest, answer, t', split, receives, stop, run, missed, same⟩ :=
    restore_files (w := blockedWorld) wellFormed_blockedTree real_blockedTree rfl noLinks_blockedTree
      (rfl : blockedTree.entryAt? (artifactPlace ["cache"] "k") = _) (Tar.Listing.lists_archive _)
      coherent_blockedFiles
  obtain ⟨first, left⟩ := blockedFiles_split split receives stop
  obtain ⟨reason, rfl⟩ := missed.mpr (.inl left)
  have unchanged := untouched blockedWorld _ ["cache"] ["project"] "k" _ wellFormed_blockedTree rfl run rfl
  obtain ⟨d, ⟨n, there⟩, -⟩ := same.mp unchanged _ first
  cases there

end Sample

end DirectoryStore

end Conveyor
