import Conveyor.Cache.Directory
import Conveyor.Cache.Memory
import Conveyor.Proofs.Files.Change
import Conveyor.Proofs.Files.Resolve
import Conveyor.Proofs.Table

/-!
Which files paths select in a project without links. They are the files at or below the places that the
paths lead to, as far as those lie in the project, and each is named by its components in the project.
-/

namespace Conveyor

/-- A file of a project: its components from there, and its content. -/
abbrev KeptFile := List String × Content

/-- Files of a project, by their components. -/
abbrev Catch := List String → Content → Prop

def Catch.ofFiles (files : List KeptFile) : Catch := fun parts c => (parts, c) ∈ files

namespace KeptFile

def name (f : KeptFile) : String := "/".intercalate f.1

/-- The file as it is selected in a project. -/
def selected (project : Location) (f : KeptFile) : Selected := ⟨project ++ f.1, f.name⟩

/-- The file as it is kept in memory, and as it is kept in an archive. -/
def entry (f : KeptFile) : String × Content := (f.name, f.2)

def member (f : KeptFile) : Member := .mk f.name (.file f.2)

end KeptFile

/-- A name with no slash at its ends is that of its member. -/
theorem Tar.memberName_eq {name : String} (front : name.toList.head? ≠ some '/')
    (back : name.toList.getLast? ≠ some '/') : Tar.memberName name = name := by
  have whole : name.toList.dropWhile (· = '/') = name.toList := by
    cases h : name.toList with
    | nil => rfl
    | cons c rest =>
        rw [h] at front
        exact List.dropWhile_cons_of_neg (by simpa using front)
  have last : Tar.dropSlashes name = name := by
    have reversed : name.toList.reverse.dropWhile (· = '/') = name.toList.reverse := by
      cases h : name.toList.reverse with
      | nil => rfl
      | cons c rest =>
          rw [← List.head?_reverse, h] at back
          exact List.dropWhile_cons_of_neg (by simpa using back)
    rw [Tar.dropSlashes, reversed, List.reverse_reverse, String.ofList_toList]
  rw [Tar.memberName, whole, String.ofList_toList]
  split
  · rfl
  · exact last

theorem Tar.memberName_intercalate {parts : List String} (components : ∀ c ∈ parts, IsComponent c) :
    Tar.memberName ("/".intercalate parts) = "/".intercalate parts := by
  by_cases none : parts = []
  · exact Tar.memberName_eq (by simp [none]) (by simp [none])
  · obtain ⟨c, cs, front, hc⟩ := head_intercalate none components
    obtain ⟨ds, d, back, hd⟩ := last_intercalate none components
    exact Tar.memberName_eq (by simpa [front] using hc) (by simpa [back] using hd)

namespace FileTree

/-- A project directory without links and without backslashes in the names below it. -/
structure Home (t : FileTree) (project : Location) : Prop where
  directory : t.entryAt? project = some .directory
  noLinks : ∀ parts target, t.entryAt? (project ++ parts) ≠ some (.link target)
  noBackslash : ∀ parts e, t.entryAt? (project ++ parts) = some e → ∀ c ∈ parts, '\\' ∉ c.toList

/-- A file with the given content stands at a place. -/
def HasFile (t : FileTree) (l : Location) (c : Content) : Prop :=
  ∃ m, t.entryAt? l = some (.file c m)

theorem HasFile.unique {t : FileTree} {l : Location} {c d : Content} (hc : t.HasFile l c)
    (hd : t.HasFile l d) : c = d := by
  obtain ⟨m, hc⟩ := hc
  obtain ⟨n, hd⟩ := hd
  rw [hc] at hd
  cases hd
  rfl

/-- A path leads to a place in the project, or to one above it there. -/
def Leads (t : FileTree) (project : Location) (path : String) (parts : List String) : Prop :=
  ∃ real, t.resolve (Location.ofPath project (Path.ofText path)) = .ok real ∧
    project <+: real ∧ real <+: project ++ parts

/-- The files of a project that some paths lead to. -/
def Finds (t : FileTree) (project : Location) (paths : List String) : Catch := fun parts c =>
  (∃ path ∈ paths, t.Leads project path parts) ∧ t.HasFile (project ++ parts) c

theorem keptName_eq {parts : List String} (hne : parts ≠ [])
    (noBackslash : ∀ c ∈ parts, '\\' ∉ c.toList) : keptName parts = "/".intercalate parts := by
  have text : relativeText parts = "/".intercalate parts := by
    simp [relativeText, hne]
  rw [keptName, text]
  apply String.toList_injective
  rw [String.toList_map]
  refine (List.map_congr_left fun c hc => if_neg ?_).trans (List.map_id _)
  rintro rfl
  rcases mem_intercalate hc with h | ⟨part, hpart, hmem⟩
  · cases h
  · exact noBackslash part hpart hmem

theorem below?_eq_some (root l : Location) (parts : List String) :
    Location.below? root l = some parts ↔ l = root ++ parts := by
  rw [Location.below?]
  constructor
  · intro h
    split at h
    · rename_i hroot
      cases h
      exact (List.prefix_iff_eq_append.mp (List.isPrefixOf_iff_prefix.mp hroot)).symm
    · cases h
  · rintro rfl
    simp

theorem mem_below (t : FileTree) (l : Location) (parts : List String) (e : Entry) :
    (parts, e) ∈ t.below l ↔ parts ≠ [] ∧ (l ++ parts, e) ∈ t.entries := by
  rw [below, List.mem_mergeSort, List.mem_filterMap]
  constructor
  · rintro ⟨⟨place, entry⟩, hmem, h⟩
    dsimp only at h
    split at h
    · cases h
    · cases h
    · rename_i found hne hbelow
      cases h
      rw [below?_eq_some] at hbelow
      exact ⟨hne, hbelow ▸ hmem⟩
  · rintro ⟨hne, hmem⟩
    refine ⟨(l ++ parts, e), hmem, ?_⟩
    have hbelow : Location.below? l (l ++ parts) = some parts := (below?_eq_some _ _ _).mpr rfl
    dsimp only
    rw [hbelow]
    cases parts with
    | nil => exact absurd rfl hne
    | cons c rest => rfl

theorem mem_placesBelow {t : FileTree} {l directory : Location}
    (leads : t.follow l = .ok directory) (place : Location) : place ∈ t.placesBelow l ↔
      ∃ parts, place = l ++ parts ∧ parts ≠ [] ∧ ∃ e, t.entryAt? (directory ++ parts) = some e := by
  have entries : ∀ {m : Location}, m ≠ [] →
      ((∃ e, (m, e) ∈ t.entries) ↔ ∃ e, t.entryAt? m = some e) := by
    intro m hne
    have key := Table.mem_keys_iff t.entries m
    simp only [Table.keys, List.mem_map, Prod.exists, exists_and_right, exists_eq_right] at key
    simp only [entryAt?, hne, if_false, key]
  simp only [placesBelow, leads, List.mem_map, Prod.exists, mem_below]
  constructor
  · rintro ⟨parts, e, ⟨hne, hmem⟩, rfl⟩
    exact ⟨parts, rfl, hne, (entries (by simp [hne])).mp ⟨e, hmem⟩⟩
  · rintro ⟨parts, rfl, hne, there⟩
    obtain ⟨e, hmem⟩ := (entries (by simp [hne])).mpr there
    exact ⟨parts, e, ⟨hne, hmem⟩, rfl⟩

/-- The places below one that is no link. -/
theorem mem_placesBelow_itself {t : FileTree} {l : Location} (itself : t.follow l = .ok l)
    (place : Location) :
    place ∈ t.placesBelow l ↔ l <+: place ∧ place ≠ l ∧ ∃ e, t.entryAt? place = some e := by
  rw [mem_placesBelow itself]
  constructor
  · rintro ⟨parts, rfl, hne, there⟩
    exact ⟨List.prefix_append l parts, by simpa using hne, there⟩
  · rintro ⟨⟨parts, rfl⟩, hne, there⟩
    exact ⟨parts, rfl, by simpa using hne, there⟩

/-- Listing the places below one gives them all, where each of them can be asked. -/
theorem listBelow_eq_ok {t : FileTree} {l : Location}
    (asked : ∀ place ∈ t.placesBelow l, ∃ answer, t.isDirectory place = .ok answer) :
    t.listBelow l = .ok (t.placesBelow l) := by
  have each := mapM_eq_ok (l := t.placesBelow l) (g := id)
    (f := fun place => do let _ ← t.isDirectory place; return place) fun place hplace => by
      obtain ⟨answer, h⟩ := asked place hplace
      rw [h]
      rfl
  rw [listBelow, each, List.map_id]

theorem hasPath_true {t : FileTree} {l : Location} (h : t.hasPath l = .ok true) :
    ∃ e, t.stat l = .ok e := by
  unfold hasPath ask at h
  split at h
  · cases h
  · split at h
    · rename_i e hstat
      exact ⟨e, hstat⟩
    · cases h
    · cases h

/-- A place below a directory that holds no links. -/
theorem WellFormed.linkFree_inside {t : FileTree} (wf : t.WellFormed) {project : Location}
    (directory : t.entryAt? project = some .directory)
    (noLinks : ∀ parts target, t.entryAt? (project ++ parts) ≠ some (.link target)) {l : Location}
    (h : project <+: l) : t.LinkFree l := by
  intro m hm target hlink
  rcases List.prefix_or_prefix_of_prefix hm h with hm | ⟨parts, rfl⟩
  · exact (wf.passable directory).linkFree m hm target hlink
  · exact noLinks parts target hlink

section Home

variable {t : FileTree} {project : Location} (wf : t.WellFormed) (home : t.Home project)
include wf home

theorem Home.linkFree {l : Location} (h : project <+: l) : t.LinkFree l :=
  wf.linkFree_inside home.directory home.noLinks h

theorem Home.isFile_eq {parts : List String} {e : Entry}
    (h : t.entryAt? (project ++ parts) = some e) :
    ∃ answer, t.isFile (project ++ parts) = .ok answer ∧
      (answer = true ↔ ∃ c, t.HasFile (project ++ parts) c) := by
  refine ⟨_, wf.ask_eq h (fun target he => home.noLinks parts target (he ▸ h)) _, ?_⟩
  cases e <;> simp [HasFile, h]

/-- A file of a project is kept under its components from there. -/
theorem Home.nameInside_eq {parts : List String} {c : Content}
    (h : t.HasFile (project ++ parts) c) :
    t.nameInside project (project ++ parts) = .ok ("/".intercalate parts) := by
  obtain ⟨m, h⟩ := h
  have real : t.resolve (project ++ parts) = .ok (project ++ parts) :=
    resolve_eq (wf.named _ _ h) (home.linkFree wf (List.prefix_append project parts))
  have hne : parts ≠ [] := by
    rintro rfl
    rw [List.append_nil, home.directory] at h
    cases h
  have below : Location.below? project (project ++ parts) = some parts := by
    simp [Location.below?]
  simp only [nameInside, real, bind, Except.bind, below]
  exact congrArg _ (keptName_eq hne (home.noBackslash parts _ h))

theorem Home.follow_eq {parts : List String} {e : Entry}
    (h : t.entryAt? (project ++ parts) = some e) : t.follow (project ++ parts) = .ok (project ++ parts) :=
  wf.follow_eq (wf.named _ _ h) (wf.above _ _ h) (home.noLinks parts)

theorem Home.mem_placesBelow {parts : List String} {e : Entry}
    (h : t.entryAt? (project ++ parts) = some e) (place : Location) :
    place ∈ t.placesBelow (project ++ parts) ↔
      project ++ parts <+: place ∧ place ≠ project ++ parts ∧ ∃ e, t.entryAt? place = some e :=
  mem_placesBelow_itself (home.follow_eq wf h) place

theorem Home.placesBelow_inside {parts : List String} {e : Entry}
    (h : t.entryAt? (project ++ parts) = some e) :
    ∀ l ∈ t.placesBelow (project ++ parts), project <+: l ∧ ∃ e, t.entryAt? l = some e := by
  intro l hl
  obtain ⟨hstart, -, hentry⟩ := (home.mem_placesBelow wf h l).mp hl
  exact ⟨(List.prefix_append project parts).trans hstart, hentry⟩

/-- Nothing in a project without links keeps it from being listed. -/
theorem Home.listBelow_eq {parts : List String} {e : Entry}
    (h : t.entryAt? (project ++ parts) = some e) :
    t.listBelow (project ++ parts) = .ok (t.placesBelow (project ++ parts)) := by
  refine listBelow_eq_ok fun place hplace => ?_
  obtain ⟨⟨more, rfl⟩, e, entry⟩ := home.placesBelow_inside wf h place hplace
  exact ⟨_, wf.ask_eq entry (fun target he => home.noLinks more target (he ▸ entry)) _⟩

/-- The files among some places of a project. -/
theorem Home.selectFiles_eq {places : List Location}
    (inside : ∀ l ∈ places, project <+: l ∧ ∃ e, t.entryAt? l = some e) :
    ∃ files : List KeptFile,
      t.selectFiles project places = .ok (files.map (KeptFile.selected project)) ∧
      ∀ parts c, (parts, c) ∈ files ↔ project ++ parts ∈ places ∧ t.HasFile (project ++ parts) c := by
  induction places with
  | nil => exact ⟨[], rfl, by simp⟩
  | cons l rest ih =>
      obtain ⟨files, hrest, hmem⟩ := ih fun l hl => inside l (List.mem_cons_of_mem _ hl)
      obtain ⟨⟨parts, rfl⟩, e, hentry⟩ := inside l List.mem_cons_self
      obtain ⟨answer, hanswer, hfile⟩ := home.isFile_eq wf hentry
      rw [selectFiles, hanswer]
      cases answer with
      | true =>
          obtain ⟨c, hc⟩ := hfile.mp rfl
          refine ⟨(parts, c) :: files, ?_, ?_⟩
          · simp only [bind, Except.bind, if_true, home.nameInside_eq wf hc, hrest]
            rfl
          · intro other d
            rw [List.mem_cons, List.mem_cons, hmem, Prod.mk.injEq, List.append_cancel_left_eq]
            constructor
            · rintro (⟨rfl, rfl⟩ | ⟨hother, hd⟩)
              · exact ⟨.inl rfl, hc⟩
              · exact ⟨.inr hother, hd⟩
            · rintro ⟨rfl | hother, hd⟩
              · exact .inl ⟨rfl, hd.unique hc⟩
              · exact .inr ⟨hother, hd⟩
      | false =>
          refine ⟨files, hrest, ?_⟩
          intro other d
          rw [List.mem_cons, List.append_cancel_left_eq, hmem]
          constructor
          · exact fun ⟨hother, hd⟩ => ⟨.inr hother, hd⟩
          · rintro ⟨rfl | hother, hd⟩
            · exact absurd (hfile.mpr ⟨d, hd⟩) (by simp)
            · exact ⟨hother, hd⟩

/-- A place of the project where something stands is there for the question as well. -/
theorem Home.hasPath_of_above {real : Location} {parts : List String} {c : Content}
    (inside : project <+: real) (above : real <+: project ++ parts)
    (h : t.HasFile (project ++ parts) c) : t.hasPath real = .ok true := by
  obtain ⟨m, h⟩ := h
  have there : ∃ e, t.entryAt? real = some e := by
    by_cases heq : real = project ++ parts
    · exact ⟨_, heq ▸ h⟩
    · exact ⟨_, wf.directory_of_prefix h above heq⟩
  obtain ⟨e, he⟩ := there
  refine wf.ask_eq he (fun target htarget => ?_) _
  exact home.linkFree wf inside real (List.prefix_refl real) target (htarget ▸ he)

/-- The files at or below a place of the project that is there. -/
theorem Home.selectFrom {real : Location} {rest : List String} (hreal : real = project ++ rest)
    {e : Entry} (there : t.entryAt? real = some e) {sel : List Selected}
    (h : (do
      if ← t.isFile real then return [⟨real, ← t.nameInside project real⟩]
      t.selectFiles project (← t.listBelow real)) = Except.ok sel) :
    ∃ files : List KeptFile, sel = files.map (KeptFile.selected project) ∧
      ∀ parts c, (parts, c) ∈ files ↔
        real <+: project ++ parts ∧ t.HasFile (project ++ parts) c := by
  subst hreal
  obtain ⟨answer, hanswer, hfile⟩ := home.isFile_eq wf there
  rw [hanswer] at h
  cases answer with
  | true =>
      obtain ⟨c, hc⟩ := hfile.mp rfl
      simp only [bind, Except.bind, if_true, home.nameInside_eq wf hc] at h
      cases h
      refine ⟨[(rest, c)], rfl, fun parts d => ?_⟩
      rw [List.mem_singleton, Prod.mk.injEq]
      constructor
      · rintro ⟨rfl, rfl⟩
        exact ⟨List.prefix_refl _, hc⟩
      · rintro ⟨hstart, m, hd⟩
        have same : project ++ rest = project ++ parts := by
          by_contra hne
          obtain ⟨n, hc⟩ := hc
          rw [wf.directory_of_prefix hd hstart hne] at hc
          cases hc
        rw [same] at hc
        exact ⟨(List.append_cancel_left same).symm, HasFile.unique ⟨m, hd⟩ hc⟩
  | false =>
      obtain ⟨files, hfiles, hmem⟩ := home.selectFiles_eq wf (home.placesBelow_inside wf there)
      have h : (do t.selectFiles project (← t.listBelow (project ++ rest))) = .ok sel := h
      rw [home.listBelow_eq wf there] at h
      have h : t.selectFiles project (t.placesBelow (project ++ rest)) = .ok sel := h
      rw [hfiles] at h
      cases h
      refine ⟨files, rfl, fun parts c => ?_⟩
      rw [hmem, home.mem_placesBelow wf there]
      constructor
      · rintro ⟨⟨hstart, -, -⟩, hc⟩
        exact ⟨hstart, hc⟩
      · rintro ⟨hstart, hc⟩
        refine ⟨⟨hstart, fun same => ?_, hc.elim fun m hm => ⟨_, hm⟩⟩, hc⟩
        rw [same] at hc
        exact absurd (hfile.mpr ⟨c, hc⟩) (by simp)

theorem Home.selectPath_ok {path : String} {sel : List Selected}
    (h : t.selectPath project path = .ok sel) :
    ∃ files : List KeptFile, sel = files.map (KeptFile.selected project) ∧
      ∀ parts c, (parts, c) ∈ files ↔
        t.Leads project path parts ∧ t.HasFile (project ++ parts) c := by
  obtain ⟨real, hreal, h⟩ := ok_of_bind_ok h
  obtain ⟨there, hthere, h⟩ := ok_of_bind_ok h
  have leads_iff : ∀ parts, t.Leads project path parts ↔
      project <+: real ∧ real <+: project ++ parts := by
    intro parts
    constructor
    · rintro ⟨other, hother, inside, above⟩
      rw [hreal] at hother
      cases hother
      exact ⟨inside, above⟩
    · rintro ⟨inside, above⟩
      exact ⟨real, hreal, inside, above⟩
  split at h
  · rename_i missing
    cases h
    refine ⟨[], rfl, fun parts c => ⟨fun hmem => (List.not_mem_nil hmem).elim, ?_⟩⟩
    rintro ⟨leads, hc⟩
    obtain ⟨inside, above⟩ := (leads_iff parts).mp leads
    rw [home.hasPath_of_above wf inside above hc] at hthere
    cases hthere
    cases missing
  · rename_i hthere'
    split at h
    · rename_i outside
      cases h
      refine ⟨[], rfl, fun parts c => ⟨fun hmem => (List.not_mem_nil hmem).elim, ?_⟩⟩
      rintro ⟨leads, -⟩
      obtain ⟨rest, hrest⟩ := ((leads_iff parts).mp leads).1
      rw [(below?_eq_some project real rest).mpr hrest.symm] at outside
      cases outside
    · rename_i inside
      obtain ⟨rest, hrest⟩ := Option.ne_none_iff_exists'.mp (mt Option.isNone_iff_eq_none.mpr inside)
      have hrest := (below?_eq_some project real rest).mp hrest
      have prefixed : project <+: real := ⟨rest, hrest.symm⟩
      have found : t.hasPath real = .ok true := by
        cases there with
        | true => exact hthere
        | false => exact absurd rfl hthere'
      obtain ⟨e, hstat⟩ := hasPath_true found
      have plain : ∀ c ∈ real, IsPlain c :=
        (resolve_ok hreal).1 ▸ t.isPlain_resolveFrom [] _ (by simp)
      have entry := stat_of_linkFree plain (home.linkFree wf prefixed) hstat
      obtain ⟨files, hfiles, hmem⟩ := home.selectFrom wf hrest entry h
      refine ⟨files, hfiles, fun parts c => ?_⟩
      rw [hmem, leads_iff]
      exact ⟨fun ⟨above, hc⟩ => ⟨⟨prefixed, above⟩, hc⟩, fun ⟨⟨_, above⟩, hc⟩ => ⟨above, hc⟩⟩

theorem Home.selectPaths_ok {paths : List String} {sel : List Selected}
    (h : t.selectPaths project paths = .ok sel) :
    ∃ files : List KeptFile, sel = files.map (KeptFile.selected project) ∧
      Catch.ofFiles files = t.Finds project paths := by
  induction paths generalizing sel with
  | nil =>
      cases h
      refine ⟨[], rfl, ?_⟩
      funext parts c
      simp [Catch.ofFiles, Finds]
  | cons path rest ih =>
      obtain ⟨first, hfirst, h⟩ := ok_of_bind_ok h
      obtain ⟨others, hothers, h⟩ := ok_of_bind_ok h
      cases h
      obtain ⟨files, rfl, hfiles⟩ := home.selectPath_ok wf hfirst
      obtain ⟨more, rfl, found⟩ := ih hothers
      refine ⟨files ++ more, by simp, ?_⟩
      funext parts c
      have later : (parts, c) ∈ more ↔ t.Finds project rest parts c := by
        rw [← found]
        rfl
      simp only [Catch.ofFiles, List.mem_append, hfiles, later, Finds, List.exists_mem_cons_iff,
        or_and_right]

/-- A path that the file system accepts, as far as links and names go. -/
def Accepted (t : FileTree) (project : Location) (path : String) : Prop :=
  ∃ real, t.resolve (Location.ofPath project (Path.ofText path)) = .ok real ∧
    t.LinkFree real ∧ ∀ c ∈ real, IsName c

theorem Home.selectPath_returns {path : String} (accepted : t.Accepted project path) :
    ∃ sel, t.selectPath project path = .ok sel := by
  obtain ⟨real, hreal, free, names⟩ := accepted
  rw [selectPath, hreal]
  simp only [bind, Except.bind]
  match hentry : t.entryAt? real with
  | none =>
      rw [hasPath, ask_of_none names free hentry]
      exact ⟨_, rfl⟩
  | some e =>
      rw [hasPath,
        wf.ask_eq hentry fun target he => free real (List.prefix_refl real) target (he ▸ hentry)]
      simp only [Bool.not_true, Bool.false_eq_true, if_false]
      split
      · exact ⟨_, rfl⟩
      · rename_i inside
        obtain ⟨rest, hrest⟩ := Option.ne_none_iff_exists'.mp (mt Option.isNone_iff_eq_none.mpr inside)
        have hrest := (below?_eq_some project real rest).mp hrest
        subst hrest
        obtain ⟨answer, hanswer, hfile⟩ := home.isFile_eq wf hentry
        rw [hanswer]
        cases answer with
        | true =>
            obtain ⟨c, hc⟩ := hfile.mp rfl
            simp only [if_true, home.nameInside_eq wf hc]
            exact ⟨_, rfl⟩
        | false =>
            obtain ⟨files, hfiles, -⟩ :=
              home.selectFiles_eq wf (home.placesBelow_inside wf hentry)
            rw [home.listBelow_eq wf hentry]
            exact ⟨_, hfiles⟩

theorem Home.selectPaths_returns {paths : List String}
    (accepted : ∀ path ∈ paths, t.Accepted project path) :
    ∃ sel, t.selectPaths project paths = .ok sel := by
  induction paths with
  | nil => exact ⟨[], rfl⟩
  | cons path rest ih =>
      obtain ⟨first, hfirst⟩ := home.selectPath_returns wf (accepted path List.mem_cons_self)
      obtain ⟨others, hothers⟩ := ih fun p hp => accepted p (List.mem_cons_of_mem path hp)
      rw [selectPaths, hfirst, hothers]
      exact ⟨_, rfl⟩

/-- Only a path that is not accepted stops the selection. -/
theorem Home.refused {paths : List String} {fault : Fault}
    (h : t.selectPaths project paths = .error fault) : ∃ path ∈ paths, ¬ t.Accepted project path := by
  by_contra all
  push Not at all
  obtain ⟨sel, hok⟩ := home.selectPaths_returns wf all
  rw [h] at hok
  cases hok

/-- A project directory is its own real place. -/
theorem Home.resolve_eq : t.resolve project = .ok project :=
  FileTree.resolve_eq (wf.named _ _ home.directory) (home.linkFree wf (List.prefix_refl project))

theorem Home.selection_eq (paths : List String) :
    t.selection project paths = t.selectPaths project paths := by
  rw [selection, home.resolve_eq wf]
  rfl

end Home

section Found

variable {t : FileTree} {project : Location} {paths : List String} {files : List KeptFile}

theorem hasFile_of_found (found : Catch.ofFiles files = t.Finds project paths) :
    ∀ f ∈ files, t.HasFile (project ++ f.1) f.2 := by
  intro f hf
  have there : t.Finds project paths f.1 f.2 := found ▸ hf
  exact there.2

theorem WellFormed.readSelected_eq (wf : t.WellFormed)
    (there : ∀ f ∈ files, t.HasFile (project ++ f.1) f.2) :
    t.readSelected (files.map (KeptFile.selected project)) = .ok (files.map KeptFile.entry) := by
  induction files with
  | nil => rfl
  | cons f rest ih =>
      obtain ⟨m, hf⟩ := there f List.mem_cons_self
      rw [List.map_cons, readSelected, ih fun g hg => there g (List.mem_cons_of_mem f hg)]
      simp only [KeptFile.selected, wf.readFile_eq hf]
      rfl

theorem WellFormed.membersOf_eq (wf : t.WellFormed)
    (there : ∀ f ∈ files, t.HasFile (project ++ f.1) f.2) :
    t.membersOf (files.map (KeptFile.selected project)) = .ok (files.map KeptFile.member) := by
  induction files with
  | nil => rfl
  | cons f rest ih =>
      obtain ⟨m, hf⟩ := there f List.mem_cons_self
      have named : Tar.memberName f.name = f.name := Tar.memberName_intercalate fun c hc =>
        (wf.named _ _ hf c (List.mem_append_right project hc)).component
      rw [List.map_cons, membersOf, ih fun g hg => there g (List.mem_cons_of_mem f hg)]
      simp only [KeptFile.selected, wf.readFile_eq hf, named,
        wf.followParent_eq (wf.named _ _ hf) (wf.above _ _ hf), orFault, bind, Except.bind, hf]
      rfl

end Found

theorem Home.congr {t t' : FileTree} {project : Location} (home : t.Home project)
    (same : ∀ parts, t'.entryAt? (project ++ parts) = t.entryAt? (project ++ parts)) :
    t'.Home project := by
  constructor
  · have entry := same []
    rw [List.append_nil] at entry
    rw [entry, home.directory]
  · intro parts target
    rw [same]
    exact home.noLinks parts target
  · intro parts e
    rw [same]
    exact home.noBackslash parts e

/-- A path that names a file of a project is accepted, and the file is found under it. -/
theorem Home.finds_file {t : FileTree} {project : Location} (wf : t.WellFormed)
    (home : t.Home project) {parts : List String} {c : Content} (hne : parts ≠ [])
    (h : t.HasFile (project ++ parts) c) :
    t.Accepted project ("/".intercalate parts) ∧
      t.Finds project ["/".intercalate parts] parts c := by
  obtain ⟨m, entry⟩ := h
  have names := wf.named _ _ entry
  have free := home.linkFree wf (List.prefix_append project parts)
  have place : Location.ofPath project (Path.ofText ("/".intercalate parts)) = project ++ parts := by
    rw [Path.ofText_intercalate hne fun n hn => (names n (List.mem_append_right project hn)).component]
    rfl
  have real : t.resolve (Location.ofPath project (Path.ofText ("/".intercalate parts))) =
      .ok (project ++ parts) := by
    rw [place, FileTree.resolve_eq names free]
  exact ⟨⟨_, real, free, names⟩, ⟨_, List.mem_singleton_self _, _, real,
    List.prefix_append project parts, List.prefix_refl _⟩, m, entry⟩

/-- Two trees have the same links, and the same entries in a project. -/
structure SameHome (t t' : FileTree) (project : Location) : Prop where
  links : t.SameLinks t'
  entries : ∀ parts, t'.entryAt? (project ++ parts) = t.entryAt? (project ++ parts)

section SameHome

variable {t t' : FileTree} {project : Location} (same : t.SameHome t' project)
include same

theorem SameHome.home (home : t.Home project) : t'.Home project := home.congr same.entries

theorem SameHome.leads_iff (wf : t.WellFormed) (home : t.Home project) (path : String)
    (parts : List String) : t.Leads project path parts ↔ t'.Leads project path parts := by
  have agree : ∀ real, project <+: real →
      (t.resolve (Location.ofPath project (Path.ofText path)) = .ok real ↔
        t'.resolve (Location.ofPath project (Path.ofText path)) = .ok real) :=
    fun real inside => same.links.resolve_iff (home.linkFree wf inside)
  constructor
  · rintro ⟨real, hreal, inside, above⟩
    exact ⟨real, (agree real inside).mp hreal, inside, above⟩
  · rintro ⟨real, hreal, inside, above⟩
    exact ⟨real, (agree real inside).mpr hreal, inside, above⟩

theorem SameHome.finds_eq (wf : t.WellFormed) (home : t.Home project) (paths : List String) :
    t'.Finds project paths = t.Finds project paths := by
  funext parts c
  simp only [Finds, HasFile, same.entries, same.leads_iff wf home]

theorem SameHome.accepted {path : String} (accepted : t.Accepted project path) :
    t'.Accepted project path := by
  obtain ⟨real, hreal, free, names⟩ := accepted
  exact ⟨real, (same.links.resolve_iff free).mp hreal, (same.links.linkFree_iff real).mp free, names⟩

end SameHome

end FileTree

end Conveyor
