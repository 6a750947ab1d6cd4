import Conveyor.Proofs.Cache.Enumeration
import Conveyor.Proofs.Cache.Memory

/-!
The names of kept files, in a project without links. A file is kept under its own path just if no component
of it holds a backslash; then no other such file has its name, and what was saved comes back each file at
its own path, in either store.
-/

namespace Conveyor

/-- No component holds a backslash. -/
def Unslashed (parts : List String) : Prop := ∀ c ∈ parts, '\\' ∉ c.toList

instance (parts : List String) : Decidable (Unslashed parts) :=
  inferInstanceAs (Decidable (∀ c ∈ parts, '\\' ∉ c.toList))

theorem not_mem_keptName (parts : List String) : '\\' ∉ (keptName parts).toList := by
  rw [keptName, String.toList_map]
  intro h
  obtain ⟨c, -, hc⟩ := List.mem_map.mp h
  split at hc
  · cases hc
  · rename_i other
    exact other hc

theorem mem_intercalate_of_mem {parts : List String} {part : String} {c : Char} (hpart : part ∈ parts)
    (hc : c ∈ part.toList) : c ∈ ("/".intercalate parts).toList := by
  induction parts with
  | nil => cases hpart
  | cons first rest ih =>
      cases rest with
      | nil =>
          rw [List.mem_singleton.mp hpart] at hc
          simpa using hc
      | cons next more =>
          rw [String.intercalate_cons_cons, String.toList_append]
          rcases List.mem_cons.mp hpart with rfl | hpart
          · exact List.mem_append_left _ (by simp [hc])
          · exact List.mem_append_right _ (ih hpart)

/-- A path is its own name just if it holds no backslash. -/
theorem keptName_eq_iff {parts : List String} (proper : parts ≠ []) :
    keptName parts = "/".intercalate parts ↔ Unslashed parts := by
  refine ⟨fun itself c hc backslash => ?_, FileTree.keptName_eq proper⟩
  exact not_mem_keptName parts (itself ▸ mem_intercalate_of_mem hc backslash)

/-- Items of which each is the image of something are the images of some items. -/
theorem exists_map_of_forall {α β : Type} {g : α → β} {P : α → Prop} {l : List β}
    (h : ∀ b ∈ l, ∃ a, P a ∧ g a = b) : ∃ kept : List α, kept.map g = l ∧ ∀ a ∈ kept, P a := by
  induction l with
  | nil => exact ⟨[], rfl, nofun⟩
  | cons b rest ih =>
      obtain ⟨kept, rfl, holds⟩ := ih fun c hc => h c (List.mem_cons_of_mem b hc)
      obtain ⟨a, ha, rfl⟩ := h b List.mem_cons_self
      exact ⟨a :: kept, rfl, List.forall_mem_cons.mpr ⟨ha, holds⟩⟩

namespace FileTree

/-- The files of a project that are selected, by their components from there. -/
def Selects (t : FileTree) (project : Location) (selected : List Selected) : Catch := fun parts c =>
  (∃ s ∈ selected, s.place = project ++ parts) ∧ t.HasFile (project ++ parts) c

theorem selects_congr {t t' : FileTree} {project : Location} {selected : List Selected}
    (same : ∀ parts c, t'.HasFile (project ++ parts) c ↔ t.HasFile (project ++ parts) c) :
    t'.Selects project selected = t.Selects project selected := by
  funext parts c
  rw [Selects, Selects, same]

/-- Opening a directory changes no file. -/
theorem Opened.hasFile_iff {t t' : FileTree} {l m : Location} (opened : t.Opened t' l) (pass : t.Passable l)
    (c : Content) : t'.HasFile m c ↔ t.HasFile m c := by
  unfold HasFile
  rw [opened.view]
  split
  · rename_i above
    rcases pass m above with h | h <;> simp [h]
  · rfl

/-- Of the selected files none has a backslash in its path from the project on. -/
def KeptWhole (project : Location) (selected : List Selected) : Prop :=
  ∀ s ∈ selected, ∀ parts, s.place = project ++ parts → Unslashed parts

section Selected

variable {t : FileTree} {project : Location} (wf : t.WellFormed)
  (directory : t.entryAt? project = some .directory)
  (noLinks : ∀ parts target, t.entryAt? (project ++ parts) ≠ some (.link target))
include wf directory noLinks

/-- Where a path of a cache has files looked for, in a project without links. -/
theorem Visits.inside {path : String} {place : Location} (visits : t.Visits project path place) :
    project <+: place ∧ ∀ c ∈ place, IsPlain c := by
  cases visits with
  | file leads inside _ =>
      obtain ⟨real, -⟩ := resolve_ok leads
      exact ⟨inside, real ▸ t.isPlain_resolveFrom [] _ (by simp)⟩
  | @below start place leads inside there _ mem =>
      obtain ⟨real, -⟩ := resolve_ok leads
      have plain : ∀ c ∈ start, IsPlain c := real ▸ t.isPlain_resolveFrom [] _ (by simp)
      have itself : t.follow start = .ok start := by
        obtain ⟨e, found⟩ := hasPath_true there
        obtain ⟨real', follows, -⟩ := ok_of_bind_ok found
        rw [follows, follow_of_linkFree plain (wf.linkFree_inside directory noLinks inside) follows]
      obtain ⟨below, -, e, entry⟩ := (mem_placesBelow_itself itself place).mp mem
      exact ⟨inside.trans below, fun c hc => (wf.named _ _ entry c hc).component.plain⟩

/-- A selected file stands at its own place in the project, and is kept under the name of that. -/
theorem own_name {paths : List String} {selected : List Selected} {start : Location}
    (real : t.resolve start = .ok project) (h : t.selection start paths = .ok selected) :
    ∀ s ∈ selected, ∃ parts c, parts ≠ [] ∧ s.place = project ++ parts ∧ t.HasFile s.place c ∧
      s.name = keptName parts := by
  obtain ⟨real', resolved, -, mem⟩ := selection_ok h
  obtain rfl := Except.ok.inj (real.symm.trans resolved)
  intro s hs
  obtain ⟨path, -, visits, spec⟩ := (mem s).mp hs
  obtain ⟨inside, plain⟩ := visits.inside wf directory noLinks
  obtain ⟨isFile, parts, follows, name⟩ := isSelected_iff.mp spec
  have itself := follow_of_linkFree plain (wf.linkFree_inside directory noLinks inside) follows
  obtain ⟨real', c, follows', -, file, -⟩ := isFile_eq_true isFile
  obtain rfl := Except.ok.inj (follows.symm.trans follows')
  refine ⟨parts, c, ?_, itself.symm, itself ▸ file, name⟩
  rintro rfl
  obtain ⟨m, file⟩ := file
  rw [List.append_nil, directory] at file
  cases file

/-- Files without backslashes have each a name of its own. -/
theorem place_of_name {paths : List String} {selected : List Selected} {start : Location}
    (real : t.resolve start = .ok project) (h : t.selection start paths = .ok selected)
    (whole : KeptWhole project selected) :
    ∀ s ∈ selected, ∀ other ∈ selected, s.name = other.name → s.place = other.place := by
  have named := own_name wf directory noLinks real h
  have path : ∀ s ∈ selected, ∃ parts, s.place = project ++ parts ∧ pathParts s.name = parts := by
    intro s hs
    obtain ⟨parts, c, proper, place, ⟨m, file⟩, name⟩ := named s hs
    refine ⟨parts, place, ?_⟩
    rw [name, (keptName_eq_iff proper).mpr (whole s hs parts place)]
    refine pathParts_intercalate proper fun part hpart => (wf.named _ _ file part ?_).component
    exact place ▸ List.mem_append_right project hpart
  intro s hs other hother same
  obtain ⟨parts, place, read⟩ := path s hs
  obtain ⟨rest, place', read'⟩ := path other hother
  rw [place, place', ← read, ← read', same]

/-- The path of a file selects that file. -/
theorem selectPath_own {parts : List String} {c : Content} (file : t.HasFile (project ++ parts) c) :
    t.selectPath project ("/".intercalate parts) = .ok [⟨project ++ parts, keptName parts⟩] := by
  obtain ⟨m, file⟩ := file
  have proper : parts ≠ [] := by
    rintro rfl
    rw [List.append_nil, directory] at file
    cases file
  have names := wf.named _ _ file
  have free := wf.linkFree_inside directory noLinks (List.prefix_append project parts)
  have real := FileTree.resolve_eq names free
  have leads : t.resolve (Location.ofPath project (Path.ofText ("/".intercalate parts))) =
      .ok (project ++ parts) := by
    rw [Path.ofText_intercalate proper fun n hn => (names n (List.mem_append_right project hn)).component]
    exact real
  have isFile : t.isFile (project ++ parts) = .ok true := wf.ask_eq file (by simp) _
  rw [selectPath_file leads (List.prefix_append project parts) isFile, (nameInside_eq real).1 parts rfl]
  rfl

/-- Files without backslashes are selected each under its own path. -/
theorem exists_files_of_selection {paths : List String} {selected : List Selected} {start : Location}
    (real : t.resolve start = .ok project) (h : t.selection start paths = .ok selected)
    (whole : KeptWhole project selected) : ∃ files : List KeptFile,
      files.map (KeptFile.selected project) = selected ∧
      (∀ f ∈ files, t.HasFile (project ++ f.1) f.2) ∧ Catch.ofFiles files = t.Selects project selected := by
  have named := own_name wf directory noLinks real h
  obtain ⟨files, same, there⟩ := exists_map_of_forall (g := KeptFile.selected project)
    (P := fun f => t.HasFile (project ++ f.1) f.2) (l := selected) fun s hs => by
      obtain ⟨parts, c, proper, place, file, name⟩ := named s hs
      refine ⟨(parts, c), place ▸ file, ?_⟩
      rw [(keptName_eq_iff proper).mpr (whole s hs parts place)] at name
      cases s
      exact (Selected.mk.injEq ..).mpr ⟨place.symm, name.symm⟩
  refine ⟨files, same, there, ?_⟩
  funext parts c
  refine propext ⟨fun hf => ?_, fun ⟨⟨s, hs, place⟩, file⟩ => ?_⟩
  · exact ⟨⟨_, same ▸ List.mem_map_of_mem hf, rfl⟩, there _ hf⟩
  · obtain ⟨f, hf, rfl⟩ := List.mem_map.mp (same ▸ hs)
    obtain rfl := List.append_cancel_left place
    obtain rfl := file.unique (there f hf)
    exact hf

end Selected

/-- A directory in which nothing stands. -/
structure Vacant (t : FileTree) (dest : Location) : Prop where
  directory : t.entryAt? dest = some .directory
  nothing : ∀ parts, parts ≠ [] → t.entryAt? (dest ++ parts) = none

/-- Exactly the files of a catch stand below a directory, with the directories above them. -/
structure Recreated (t : FileTree) (dest : Location) (found : Catch) : Prop where
  files : ∀ parts c, t.HasFile (dest ++ parts) c ↔ found parts c
  others : ∀ parts e, parts ≠ [] → t.entryAt? (dest ++ parts) = some e →
    (∃ c, found parts c) ∨ e = .directory ∧ ∃ rest c, found rest c ∧ parts <+: rest

theorem Vacant.receives {t : FileTree} (wf : t.WellFormed) {dest : Location} (vacant : t.Vacant dest)
    {found : Catch} (coherent : found.Coherent) : t.Receives dest found := by
  have pass := wf.passable vacant.directory
  refine ⟨wf.named _ _ vacant.directory, pass, fun parts c h m hm => ?_, fun parts c h =>
    .inl (vacant.nothing parts (coherent.proper parts c h))⟩
  rcases List.prefix_or_prefix_of_prefix hm (List.prefix_append dest _) with above | ⟨rest, rfl⟩
  · exact pass m above
  · by_cases none : rest = []
    · rw [none, List.append_nil]
      exact .inr vacant.directory
    · exact .inl (vacant.nothing rest none)

theorem Unpacked.recreated {t t' : FileTree} (wf : t.WellFormed) {dest : Location} (vacant : t.Vacant dest)
    {found : Catch} (coherent : found.Coherent) (unpacked : t.Unpacked t' dest found) :
    t'.Recreated dest found := by
  have frame := fun l => unpacked.frame coherent (vacant.receives wf coherent) (l := l)
  have others : ∀ parts e, parts ≠ [] → t'.entryAt? (dest ++ parts) = some e →
      (∃ c, found parts c) ∨ e = .directory ∧ ∃ rest c, found rest c ∧ parts <+: rest := by
    intro parts e proper there
    by_cases own : ∃ c, found parts c
    · exact .inl own
    · have other : ∀ q c, found q c → dest ++ parts ≠ dest ++ q := by
        intro q c h same
        exact own ⟨c, List.append_cancel_left same ▸ h⟩
      rcases frame (dest ++ parts) other with same | ⟨-, made, rest, c, h, above⟩
      · rw [vacant.nothing parts proper] at same
        cases same.symm.trans there
      · exact .inr ⟨Option.some.inj (there.symm.trans made), rest, c, h,
          (List.prefix_append_right_inj dest).mp above⟩
  refine ⟨fun parts c => ⟨fun file => ?_, unpacked.files parts c⟩, others⟩
  obtain ⟨m, entry⟩ := file
  by_cases itself : parts = []
  · rw [itself, List.append_nil] at entry
    have other : ∀ q c, found q c → dest ≠ dest ++ q := fun q c h same =>
      coherent.proper q c h (List.append_cancel_left (same.symm.trans (List.append_nil dest).symm))
    rcases frame dest other with same | ⟨missing, -⟩
    · cases (same.symm.trans entry).symm.trans vacant.directory
    · cases missing.symm.trans vacant.directory
  · rcases others parts _ itself entry with ⟨d, h⟩ | ⟨directory, -⟩
    · rw [HasFile.unique ⟨m, entry⟩ (unpacked.files parts d h)]
      exact h
    · cases directory

end FileTree

variable {σ : Type}

section Return

open FileTree

variable {w : World σ} {project : Location} (wf : w.files.WellFormed)
  (directory : w.files.entryAt? project = some .directory)
  (noLinks : ∀ parts target, w.files.entryAt? (project ++ parts) ≠ some (.link target))
  {start : Location} (real : w.files.resolve start = .ok project) {paths : List String}
  {selected : List Selected}
include wf directory noLinks real

/-- What is saved in memory comes back in a directory where nothing stands. -/
theorem MemoryStore.restore_recreates (h : w.files.selection start paths = .ok selected)
    (whole : KeptWhole project selected) (key : String) :
    ∃ w₁, (MemoryStore.save key paths start).run.run w = (.ok (), w₁) ∧
      ∀ (w₂ : World σ) (dest : Location), w₂.files.WellFormed → w₂.blobs.get? key = w₁.blobs.get? key →
        w₂.files.Vacant dest → ∃ reason t, (MemoryStore.restore key dest).run.run w₂ =
            (.ok ⟨true, key, reason⟩, { w₂ with files := t }) ∧
          t.Recreated dest (w.files.Selects project selected) := by
  obtain ⟨files, rfl, there, found⟩ := exists_files_of_selection wf directory noLinks real h whole
  have coherent : (Catch.ofFiles files).Coherent := by
    rw [found]
    exact (wf.coherent directory).mono fun _ _ h => h.2
  obtain ⟨kept, blob, same⟩ := ofEntries_eq coherent
  have select := Action.run_ask_of (w := w) (f := (·.selection start paths)) h
  have read := Action.run_ask_of (w := w) (f := (·.readSelected (files.map (KeptFile.selected project))))
    (wf.readSelected_eq there)
  refine ⟨{ w with blobs := w.blobs.put key (Table.ofEntries (files.map KeptFile.entry)) }, ?_,
    fun w₂ dest wf₂ known vacant => ?_⟩
  · rw [MemoryStore.save, run_bind_ok select, run_bind_ok read]
    rfl
  · rw [← found, ← same]
    rw [← same] at coherent
    dsimp only at known
    rw [Table.get?_put, beq_self_eq_true, if_pos rfl, blob] at known
    obtain ⟨t, written, unpacked⟩ := run_writeFiles wf₂ coherent (vacant.receives wf₂ coherent)
    refine ⟨"cache hit: restored from memory", t, ?_, unpacked.recreated wf₂ vacant coherent⟩
    rw [MemoryStore.restore, run_bind_ok (run_get w₂), known]
    exact run_bind_ok written

end Return

section Archive

variable {w : World σ} {root project start : Location} {key : String}

/-- What is saved as an archive comes back in a directory where nothing stands. -/
theorem DirectoryStore.Ready.restore_recreates (ready : Ready w.files root key)
    (directory : w.files.entryAt? project = some .directory)
    (noLinks : ∀ parts target, w.files.entryAt? (project ++ parts) ≠ some (.link target))
    (real : w.files.resolve start = .ok project) (paths : List String) :
    ∃ t₁, w.files.Opened t₁ (keyDirectory root key) ∧
      ∀ selected, t₁.selection start paths = .ok selected → FileTree.KeptWhole project selected →
        ∃ w₁, (DirectoryStore.save root key paths start).run.run w = (.ok (), w₁) ∧
          ∀ (w₂ : World σ) (into dest : Location), w₂.files.WellFormed →
            w₂.files.entryAt? (artifactPlace root key) = w₁.files.entryAt? (artifactPlace root key) →
            w₂.files.resolve into = .ok dest → w₂.files.Vacant dest →
            ∃ reason t, (DirectoryStore.restore root key into).run.run w₂ =
                (.ok ⟨true, key, reason⟩, { w₂ with files := t }) ∧
              t.Recreated dest (w.files.Selects project selected) := by
  obtain ⟨t₁, -, opened, -, saves⟩ := ready.run_save_opened real paths
  refine ⟨t₁, opened, fun selected h whole => ?_⟩
  have links := opened.sameLinks ready.passable
  have directory₁ : t₁.entryAt? project = some .directory := by
    rw [opened.view, directory, ite_self]
  have noLinks₁ : ∀ parts target, t₁.entryAt? (project ++ parts) ≠ some (.link target) :=
    fun parts target link => noLinks parts target ((links _ _).mpr link)
  have free := ready.wellFormed.linkFree_inside directory noLinks (List.prefix_refl project)
  have real₁ : t₁.resolve start = .ok project := (links.resolve_iff free).mp real
  have itself := opened.wellFormed.resolve_directory directory₁
  have chosen : t₁.selection project paths = .ok selected := by
    rw [← h, FileTree.selection, FileTree.selection, real₁, itself]
  obtain ⟨files, rfl, there, found⟩ :=
    FileTree.exists_files_of_selection opened.wellFormed directory₁ noLinks₁ real₁ h whole
  have coherent : (Catch.ofFiles files).Coherent := by
    rw [found]
    exact (opened.wellFormed.coherent directory₁).mono fun _ _ h => h.2
  obtain ⟨t', run, saved, -⟩ := (saves _ chosen).2 _ (opened.wellFormed.membersOf_eq there)
  obtain ⟨m, stored⟩ := saved.artifact
  refine ⟨_, run, fun w₂ into dest wf₂ kept leads vacant => ?_⟩
  obtain ⟨t₂, extracts, unpacked⟩ := Tar.Listing.run_extract wf₂ coherent (vacant.receives wf₂ coherent)
  refine ⟨"cache hit: restored artifact", t₂, ?_, ?_⟩
  · have listing : Tar.Listing.ofContent (.archive (files.map KeptFile.member)) =
        .whole (files.map KeptFile.member) := rfl
    rw [restore_stored wf₂ (kept.trans stored) leads, extract_run, listing, extracts]
  · rw [← FileTree.selects_congr fun parts => opened.hasFile_iff ready.passable, ← found]
    exact unpacked.recreated wf₂ vacant coherent

end Archive

/-- In a project without links, each file that a cache selects is kept under its own path from the project
on, but with a slash for each backslash; so under that path itself just where it holds no backslash. Where
that is so of all that is selected, no two files have one name, and what either store saves comes back in a
directory where nothing stands: exactly those files, each at its own path. -/
theorem kept_names_faithful {w : World σ} {project start : Location} (wf : w.files.WellFormed)
    (directory : w.files.entryAt? project = some .directory)
    (noLinks : ∀ parts target, w.files.entryAt? (project ++ parts) ≠ some (.link target))
    (real : w.files.resolve start = .ok project) (paths : List String) :
    (∀ selected, w.files.selection start paths = .ok selected →
      (∀ s ∈ selected, ∃ parts c, s.place = project ++ parts ∧ w.files.HasFile s.place c ∧
        s.name = keptName parts ∧ (s.name = "/".intercalate parts ↔ Unslashed parts)) ∧
      (FileTree.KeptWhole project selected →
        (∀ s ∈ selected, ∀ other ∈ selected, s.name = other.name → s.place = other.place) ∧
        ∀ key, ∃ w₁, (MemoryStore.save key paths start).run.run w = (.ok (), w₁) ∧
          ∀ (w₂ : World σ) (dest : Location), w₂.files.WellFormed →
            w₂.blobs.get? key = w₁.blobs.get? key → w₂.files.Vacant dest →
            ∃ reason t, (MemoryStore.restore key dest).run.run w₂ =
                (.ok ⟨true, key, reason⟩, { w₂ with files := t }) ∧
              t.Recreated dest (w.files.Selects project selected))) ∧
    ∀ root key, DirectoryStore.Ready w.files root key →
      ∃ t₁, w.files.Opened t₁ (DirectoryStore.keyDirectory root key) ∧
        ∀ selected, t₁.selection start paths = .ok selected → FileTree.KeptWhole project selected →
          ∃ w₁, (DirectoryStore.save root key paths start).run.run w = (.ok (), w₁) ∧
            ∀ (w₂ : World σ) (into dest : Location), w₂.files.WellFormed →
              w₂.files.entryAt? (DirectoryStore.artifactPlace root key) =
                w₁.files.entryAt? (DirectoryStore.artifactPlace root key) →
              w₂.files.resolve into = .ok dest → w₂.files.Vacant dest →
              ∃ reason t, (DirectoryStore.restore root key into).run.run w₂ =
                  (.ok ⟨true, key, reason⟩, { w₂ with files := t }) ∧
                t.Recreated dest (w.files.Selects project selected) := by
  refine ⟨fun selected h => ⟨fun s hs => ?_, fun whole => ⟨?_, fun key => ?_⟩⟩, fun root key ready => ?_⟩
  · obtain ⟨parts, c, proper, place, file, name⟩ := FileTree.own_name wf directory noLinks real h s hs
    exact ⟨parts, c, place, file, name, name ▸ keptName_eq_iff proper⟩
  · exact FileTree.place_of_name wf directory noLinks real h whole
  · exact MemoryStore.restore_recreates wf directory noLinks real h whole key
  · exact ready.restore_recreates directory noLinks real paths

section Sample

/-- A project with a file in a directory, and beside it one whose name only differs by a backslash. -/
def slashedTree : FileTree :=
  (((({} : FileTree).set ["p"] .directory).set ["p", "a"] .directory).set
    ["p", "a", "b"] (.file (.bytes [1]) 0)).set ["p", "a\\b"] (.file (.bytes [2]) 0)

theorem wellFormed_slashedTree : slashedTree.WellFormed := FileTree.wellFormed_of_entries (by decide)

theorem noLinks_slashedTree (parts : List String) (target : String) :
    slashedTree.entryAt? (["p"] ++ parts) ≠ some (.link target) := by
  intro link
  have mem := (FileTree.mem_entries_of_entryAt? link).resolve_left (by simp)
  simp [slashedTree, FileTree.set, Table.put] at mem

theorem keptName_slashed : keptName ["a\\b"] = "a/b" := by
  rw [← String.toList_inj, keptName, String.toList_map]
  decide

/-- The two files are selected under one name. -/
theorem selectPath_slashedTree :
    slashedTree.selectPath ["p"] "a/b" = .ok [⟨["p", "a", "b"], "a/b"⟩] ∧
      slashedTree.selectPath ["p"] "a\\b" = .ok [⟨["p", "a\\b"], "a/b"⟩] := by
  have first : slashedTree.selectPath ["p"] ("/".intercalate ["a", "b"]) =
      .ok [⟨["p"] ++ ["a", "b"], keptName ["a", "b"]⟩] :=
    FileTree.selectPath_own (c := .bytes [1]) wellFormed_slashedTree rfl noLinks_slashedTree ⟨0, rfl⟩
  have second : slashedTree.selectPath ["p"] ("/".intercalate ["a\\b"]) =
      .ok [⟨["p"] ++ ["a\\b"], keptName ["a\\b"]⟩] :=
    FileTree.selectPath_own (c := .bytes [2]) wellFormed_slashedTree rfl noLinks_slashedTree ⟨0, rfl⟩
  have whole : keptName ["a", "b"] = "a/b" := FileTree.keptName_eq (by simp) (by decide)
  rw [whole, show "/".intercalate ["a", "b"] = "a/b" by decide] at first
  rw [keptName_slashed, show "/".intercalate ["a\\b"] = "a\\b" by decide] at second
  exact ⟨first, second⟩

theorem resolve_slashedTree : slashedTree.resolve ["p"] = .ok ["p"] :=
  wellFormed_slashedTree.resolve_directory rfl

/-- The file without a backslash comes back. -/
theorem kept_names_faithful_unslashed :
    FileTree.KeptWhole ["p"] [⟨["p", "a", "b"], "a/b"⟩] ∧
    ∃ w₁, (MemoryStore.save "k" ["a/b"] ["p"]).run.run (⟨slashedTree, [], ()⟩ : World Unit) = (.ok (), w₁) ∧
      ∀ (w₂ : World Unit) (dest : Location), w₂.files.WellFormed →
        w₂.blobs.get? "k" = w₁.blobs.get? "k" → w₂.files.Vacant dest →
        ∃ reason t, (MemoryStore.restore "k" dest).run.run w₂ =
            (.ok ⟨true, "k", reason⟩, { w₂ with files := t }) ∧
          t.Recreated dest (slashedTree.Selects ["p"] [⟨["p", "a", "b"], "a/b"⟩]) := by
  have selects : slashedTree.selection ["p"] ["a/b"] = .ok [⟨["p", "a", "b"], "a/b"⟩] := by
    rw [FileTree.selection, resolve_slashedTree]
    simp only [bind, Except.bind, FileTree.selectPaths, selectPath_slashedTree.1]
    rfl
  have whole : FileTree.KeptWhole ["p"] [⟨["p", "a", "b"], "a/b"⟩] := by
    intro s hs parts place
    rw [List.mem_singleton.mp hs] at place
    obtain rfl := List.append_cancel_left (show ["p"] ++ ["a", "b"] = ["p"] ++ parts from place)
    decide
  exact ⟨whole, (((kept_names_faithful (w := ⟨slashedTree, [], ()⟩) wellFormed_slashedTree rfl
    noLinks_slashedTree resolve_slashedTree ["a/b"]).1 _ selects).2 whole).2 "k"⟩

/-- A backslash in a file name changes the path that the file is kept under, which may be that of another
file. -/
theorem kept_names_may_collide :
    (¬ ∀ (t : FileTree) (project : Location) (paths : List String) (selected : List Selected),
      t.WellFormed → t.entryAt? project = some .directory →
      (∀ parts target, t.entryAt? (project ++ parts) ≠ some (.link target)) →
      t.selection project paths = .ok selected →
      ∀ s ∈ selected, ∀ parts, s.place = project ++ parts → s.name = "/".intercalate parts) ∧
    ¬ ∀ (t : FileTree) (project : Location) (paths : List String) (selected : List Selected),
      t.WellFormed → t.entryAt? project = some .directory →
      (∀ parts target, t.entryAt? (project ++ parts) ≠ some (.link target)) →
      t.selection project paths = .ok selected →
      ∀ s ∈ selected, ∀ other ∈ selected, s.name = other.name → s.place = other.place := by
  have selects : slashedTree.selection ["p"] ["a/b", "a\\b"] =
      .ok [⟨["p", "a", "b"], "a/b"⟩, ⟨["p", "a\\b"], "a/b"⟩] := by
    rw [FileTree.selection, resolve_slashedTree]
    simp only [bind, Except.bind, FileTree.selectPaths, selectPath_slashedTree.1, selectPath_slashedTree.2]
    rfl
  constructor
  · intro faithful
    have same := faithful _ _ _ _ wellFormed_slashedTree rfl noLinks_slashedTree selects
      ⟨["p", "a\\b"], "a/b"⟩ (by simp) ["a\\b"] rfl
    revert same
    decide
  · intro distinct
    have same := distinct _ _ _ _ wellFormed_slashedTree rfl noLinks_slashedTree selects
      ⟨["p", "a", "b"], "a/b"⟩ (by simp) ⟨["p", "a\\b"], "a/b"⟩ (by simp) rfl
    revert same
    decide

end Sample

end Conveyor
