import Conveyor.Proofs.Cache.Packing

/-!
Which files a cache enumerates in a tree with links of any kind, and what stops the enumeration. A path
that leads out of the project is left out, but a link below a directory is only looked at when the name
of its file is made: where that file lies outside the project, the enumeration ends in a fault.
-/

namespace Conveyor

namespace FileTree

variable {t : FileTree}

theorem hasPath_of_isFile {l : Location} (h : t.isFile l = .ok true) : t.hasPath l = .ok true := by
  obtain ⟨noNul, e, hstat, -⟩ := ask_eq_true h
  rw [hasPath, ask, noNul, hstat]
  rfl

/-- Where a path of a cache has files looked for: at the file of the project that it leads to, or below
the directory that it leads to. -/
inductive Visits (t : FileTree) (project : Location) (path : String) : Location → Prop
  | file {start : Location}
      (leads : t.resolve (Location.ofPath project (Path.ofText path)) = .ok start)
      (inside : project <+: start) (isFile : t.isFile start = .ok true) : Visits t project path start
  | below {start place : Location}
      (leads : t.resolve (Location.ofPath project (Path.ofText path)) = .ok start)
      (inside : project <+: start) (there : t.hasPath start = .ok true)
      (notFile : t.isFile start = .ok false) (place_mem : place ∈ t.placesBelow start) :
      Visits t project path place

/-- What stops the enumeration of the files under a path: it has no real place, a name is too long to
ask for, or a file that is looked at lies outside the project. -/
inductive Obstacle (t : FileTree) (project : Location) (path : String) : Fault → Prop
  | unresolved {f : Fault}
      (h : t.resolve (Location.ofPath project (Path.ofText path)) = .error f) :
      Obstacle t project path f
  | unasked {start : Location} {f : Fault}
      (leads : t.resolve (Location.ofPath project (Path.ofText path)) = .ok start)
      (h : t.hasPath start = .error f) : Obstacle t project path f
  | unlisted {place : Location} {f : Fault} (visits : t.Visits project path place)
      (h : t.hasPath place = .error f) : Obstacle t project path f
  | outside {place real : Location} (visits : t.Visits project path place)
      (isFile : t.isFile place = .ok true) (leads : t.follow place = .ok real)
      (out : ¬ project <+: real) :
      Obstacle t project path (.outside (Location.text real) (Location.text project))

/-- The name of a path that leads to a file, or the fault that there is none. -/
theorem nameInside_eq {project l real : Location} (leads : t.resolve l = .ok real) :
    (∀ parts, real = project ++ parts → t.nameInside project l = .ok (keptName parts)) ∧
    (¬ project <+: real → t.nameInside project l =
      .error (.outside (Location.text real) (Location.text project))) := by
  rw [nameInside, leads]
  refine ⟨fun parts inside => ?_, fun outside => ?_⟩
  · have below := (below?_eq_some project real parts).mpr inside
    simp only [bind, Except.bind, below]
    rfl
  · have below : Location.below? project real = none := by
      simpa [Location.below?] using outside
    simp only [bind, Except.bind, below]
    rfl

theorem below?_eq_none {project l : Location} :
    (Location.below? project l).isNone = true ↔ ¬ project <+: l := by
  simp [Location.below?]

section Selection

variable {project : Location}

/-- A file that is looked at is named by its real place in the project. -/
theorem isSelected_iff {s : Selected} : t.IsSelected project s ↔ t.isFile s.place = .ok true ∧
    ∃ parts, t.follow s.place = .ok (project ++ parts) ∧ s.name = keptName parts := by
  constructor
  · rintro ⟨isFile, name⟩
    obtain ⟨real, -, follows, leads, -, -⟩ := isFile_eq_true isFile
    by_cases inside : project <+: real
    · obtain ⟨parts, rfl⟩ := inside
      rw [(nameInside_eq leads).1 parts rfl] at name
      exact ⟨isFile, parts, follows, (Except.ok.inj name).symm⟩
    · rw [(nameInside_eq leads).2 inside] at name
      cases name
  · rintro ⟨isFile, parts, follows, name⟩
    obtain ⟨real, -, follows', leads, -, -⟩ := isFile_eq_true isFile
    rw [follows] at follows'
    obtain rfl := Except.ok.inj follows'
    exact ⟨isFile, name ▸ (nameInside_eq leads).1 parts rfl⟩

/-- What has no name in the project although it leads to a file. -/
theorem nameInside_eq_error {place : Location} {f : Fault} (isFile : t.isFile place = .ok true)
    (h : t.nameInside project place = .error f) : ∃ real, t.follow place = .ok real ∧
      ¬ project <+: real ∧ f = .outside (Location.text real) (Location.text project) := by
  obtain ⟨real, -, follows, leads, -, -⟩ := isFile_eq_true isFile
  by_cases inside : project <+: real
  · obtain ⟨parts, rfl⟩ := inside
    rw [(nameInside_eq leads).1 parts rfl] at h
    cases h
  · rw [(nameInside_eq leads).2 inside] at h
    exact ⟨real, follows, inside, (Except.error.inj h).symm⟩

theorem mem_of_selectFiles {places : List Location} {selected : List Selected}
    (h : t.selectFiles project places = .ok selected) (s : Selected) :
    s ∈ selected ↔ s.place ∈ places ∧ t.IsSelected project s := by
  induction places generalizing selected with
  | nil =>
      cases h
      simp
  | cons place rest ih =>
      obtain ⟨answer, isFile, h⟩ := ok_of_bind_ok h
      rw [List.mem_cons]
      cases answer with
      | true =>
          obtain ⟨name, hname, h⟩ := ok_of_bind_ok h
          obtain ⟨others, hothers, h⟩ := ok_of_bind_ok h
          cases h
          rw [List.mem_cons, ih hothers]
          constructor
          · rintro (rfl | ⟨mem, spec⟩)
            · exact ⟨.inl rfl, isFile, hname⟩
            · exact ⟨.inr mem, spec⟩
          · rintro ⟨rfl | mem, spec⟩
            · have names := spec.name
              rw [hname] at names
              exact .inl (by cases s; simp_all)
            · exact .inr ⟨mem, spec⟩
      | false =>
          rw [ih h]
          refine ⟨fun ⟨mem, spec⟩ => ⟨.inr mem, spec⟩, ?_⟩
          rintro ⟨rfl | mem, spec⟩
          · rw [spec.isFile] at isFile
            cases isFile
          · exact ⟨mem, spec⟩

/-- Places that can be asked are selected from, unless one leads to a file outside the project. -/
theorem selectFiles_eq_error {places : List Location} {f : Fault}
    (asked : ∀ place ∈ places, ∃ answer, t.isFile place = .ok answer)
    (h : t.selectFiles project places = .error f) : ∃ place ∈ places, ∃ real,
      t.isFile place = .ok true ∧ t.follow place = .ok real ∧ ¬ project <+: real ∧
        f = .outside (Location.text real) (Location.text project) := by
  induction places with
  | nil => cases h
  | cons place rest ih =>
      have later := ih fun l hl => asked l (List.mem_cons_of_mem place hl)
      obtain ⟨answer, isFile⟩ := asked place List.mem_cons_self
      rw [selectFiles, isFile] at h
      cases answer with
      | true =>
          rcases error_of_bind_error (show (t.nameInside project place >>= fun name => do
            return ⟨place, name⟩ :: (← t.selectFiles project rest)) = .error f from h) with h | ⟨name, -, h⟩
          · obtain ⟨real, leads, out, rfl⟩ := nameInside_eq_error isFile h
            exact ⟨place, List.mem_cons_self, real, isFile, leads, out, rfl⟩
          · rcases error_of_bind_error h with h | ⟨others, -, h⟩
            · obtain ⟨place', mem, rest⟩ := later h
              exact ⟨place', List.mem_cons_of_mem place mem, rest⟩
            · cases h
      | false =>
          obtain ⟨place', mem, rest⟩ := later h
          exact ⟨place', List.mem_cons_of_mem place mem, rest⟩

/-- No place that is selected from leads to a file outside the project. -/
theorem named_of_selectFiles {places : List Location} {selected : List Selected}
    (h : t.selectFiles project places = .ok selected) :
    ∀ place ∈ places, t.isFile place = .ok true → ∃ name, t.nameInside project place = .ok name := by
  induction places generalizing selected with
  | nil => simp
  | cons place rest ih =>
      obtain ⟨answer, isFile, h⟩ := ok_of_bind_ok h
      rw [List.forall_mem_cons]
      cases answer with
      | true =>
          obtain ⟨name, hname, h⟩ := ok_of_bind_ok h
          obtain ⟨others, hothers, -⟩ := ok_of_bind_ok h
          exact ⟨fun _ => ⟨name, hname⟩, ih hothers⟩
      | false =>
          refine ⟨fun isFile' => ?_, ih h⟩
          rw [isFile] at isFile'
          cases isFile'

theorem listBelow_ok {l : Location} {places : List Location} (h : t.listBelow l = .ok places) :
    places = t.placesBelow l ∧ ∀ place ∈ places, ∃ answer, t.hasPath place = .ok answer := by
  have asked : ∀ place ∈ t.placesBelow l, ∃ answer, t.isDirectory place = .ok answer := by
    intro place hplace
    obtain ⟨_, hanswer⟩ := of_mapM_eq_ok h place hplace
    obtain ⟨answer, hanswer, -⟩ := ok_of_bind_ok hanswer
    exact ⟨answer, hanswer⟩
  rw [listBelow_eq_ok asked] at h
  obtain rfl := Except.ok.inj h
  refine ⟨rfl, fun place hplace => ?_⟩
  obtain ⟨answer, h⟩ := asked place hplace
  exact ask_ok h _

theorem listBelow_eq_error {l : Location} {f : Fault} (h : t.listBelow l = .error f) :
    ∃ place ∈ t.placesBelow l, t.hasPath place = .error f := by
  obtain ⟨place, mem, h⟩ := of_mapM_eq_error h
  rcases error_of_bind_error h with h | ⟨_, -, h⟩
  · exact ⟨place, mem, (ask_eq_error h).1 _⟩
  · cases h

section Path

variable {path : String} {start : Location}
  (leads : t.resolve (Location.ofPath project (Path.ofText path)) = .ok start)
include leads

theorem Visits.of_leads {place : Location} (visits : t.Visits project path place) :
    project <+: start ∧ t.hasPath start = .ok true ∧ (t.isFile start = .ok true ∧ place = start ∨
      t.isFile start = .ok false ∧ place ∈ t.placesBelow start) := by
  cases visits with
  | file leads' inside isFile =>
      obtain rfl := Except.ok.inj (leads.symm.trans leads')
      exact ⟨inside, hasPath_of_isFile isFile, .inl ⟨isFile, rfl⟩⟩
  | below leads' inside there notFile mem =>
      obtain rfl := Except.ok.inj (leads.symm.trans leads')
      exact ⟨inside, there, .inr ⟨notFile, mem⟩⟩

/-- A path that leads to nothing or out of the project is left out. -/
theorem selectPath_left_out (h : t.hasPath start = .ok false ∨
    t.hasPath start = .ok true ∧ ¬ project <+: start) : t.selectPath project path = .ok [] := by
  rw [selectPath, leads]
  rcases h with missing | ⟨there, outside⟩
  · simp only [bind, Except.bind, missing]
    rfl
  · have below := below?_eq_none.mpr outside
    simp only [bind, Except.bind, there, below]
    rfl

theorem selectPath_file (inside : project <+: start) (isFile : t.isFile start = .ok true) :
    t.selectPath project path = (do return [⟨start, ← t.nameInside project start⟩]) := by
  have below : (Location.below? project start).isNone = false := by
    rw [← Bool.not_eq_true, below?_eq_none]
    exact not_not_intro inside
  rw [selectPath, leads]
  simp only [bind, Except.bind, hasPath_of_isFile isFile, below, isFile]
  rfl

theorem selectPath_below (inside : project <+: start) (there : t.hasPath start = .ok true)
    (notFile : t.isFile start = .ok false) :
    t.selectPath project path = (do t.selectFiles project (← t.listBelow start)) := by
  have below : (Location.below? project start).isNone = false := by
    rw [← Bool.not_eq_true, below?_eq_none]
    exact not_not_intro inside
  rw [selectPath, leads]
  simp only [bind, Except.bind, there, below, notFile]
  rfl

variable {selected : List Selected} (h : t.selectPath project path = .ok selected) (s : Selected)
include h

theorem mem_of_left_out (out : t.hasPath start = .ok false ∨
    t.hasPath start = .ok true ∧ ¬ project <+: start) :
    s ∈ selected ↔ t.Visits project path s.place ∧ t.IsSelected project s := by
  rw [selectPath_left_out leads out] at h
  cases h
  refine iff_of_false List.not_mem_nil fun ⟨visits, _⟩ => ?_
  obtain ⟨inside, there, -⟩ := visits.of_leads leads
  rcases out with missing | ⟨-, outside⟩
  · rw [there] at missing
    cases missing
  · exact outside inside

theorem mem_of_file (inside : project <+: start) (isFile : t.isFile start = .ok true) :
    s ∈ selected ↔ t.Visits project path s.place ∧ t.IsSelected project s := by
  rw [selectPath_file leads inside isFile] at h
  obtain ⟨name, hname, h⟩ := ok_of_bind_ok h
  cases h
  rw [List.mem_singleton]
  constructor
  · rintro rfl
    exact ⟨.file leads inside isFile, isFile, hname⟩
  · rintro ⟨visits, spec⟩
    obtain ⟨-, -, ⟨-, same⟩ | ⟨notFile, -⟩⟩ := visits.of_leads leads
    · have names := spec.name
      rw [same, hname] at names
      cases s
      simp_all
    · rw [isFile] at notFile
      cases notFile

theorem mem_of_below (inside : project <+: start) (there : t.hasPath start = .ok true)
    (notFile : t.isFile start = .ok false) :
    s ∈ selected ↔ t.Visits project path s.place ∧ t.IsSelected project s := by
  rw [selectPath_below leads inside there notFile] at h
  obtain ⟨places, listed, h⟩ := ok_of_bind_ok h
  obtain ⟨rfl, -⟩ := listBelow_ok listed
  rw [mem_of_selectFiles h]
  constructor
  · rintro ⟨mem, spec⟩
    exact ⟨.below leads inside there notFile mem, spec⟩
  · rintro ⟨visits, spec⟩
    obtain ⟨-, -, ⟨isFile, -⟩ | ⟨-, mem⟩⟩ := visits.of_leads leads
    · rw [notFile] at isFile
      cases isFile
    · exact ⟨mem, spec⟩

end Path

/-- What a path selects: the files among the places that it has looked at. -/
theorem mem_of_selectPath {path : String} {selected : List Selected}
    (h : t.selectPath project path = .ok selected) (s : Selected) :
    s ∈ selected ↔ t.Visits project path s.place ∧ t.IsSelected project s := by
  obtain ⟨start, leads, answered⟩ := ok_of_bind_ok h
  obtain ⟨answer, asked, -⟩ := ok_of_bind_ok answered
  cases answer with
  | false => exact mem_of_left_out leads h s (.inl asked)
  | true =>
      by_cases inside : project <+: start
      · obtain ⟨answer, isFile⟩ : ∃ answer, t.isFile start = .ok answer := ask_ok asked _
        cases answer with
        | true => exact mem_of_file leads h s inside isFile
        | false => exact mem_of_below leads h s inside asked isFile
      · exact mem_of_left_out leads h s (.inr ⟨asked, inside⟩)

/-- A path whose files cannot be enumerated meets an obstacle, and that is the fault. -/
theorem obstacle_of_selectPath {path : String} {f : Fault}
    (h : t.selectPath project path = .error f) : t.Obstacle project path f := by
  rcases error_of_bind_error h with unresolved | ⟨start, leads, answered⟩
  · exact .unresolved unresolved
  · rcases error_of_bind_error answered with unasked | ⟨answer, asked, -⟩
    · exact .unasked leads unasked
    · have selected : ¬ (t.hasPath start = .ok false ∨
          t.hasPath start = .ok true ∧ ¬ project <+: start) := by
        intro out
        rw [selectPath_left_out leads out] at h
        cases h
      obtain ⟨there, inside⟩ : t.hasPath start = .ok true ∧ project <+: start := by
        cases answer <;> simp_all
      obtain ⟨answer, isFile⟩ : ∃ answer, t.isFile start = .ok answer := ask_ok there _
      cases answer with
      | true =>
          rw [selectPath_file leads inside isFile] at h
          rcases error_of_bind_error h with h | ⟨name, -, h⟩
          · obtain ⟨real, follows, out, rfl⟩ := nameInside_eq_error isFile h
            exact .outside (.file leads inside isFile) isFile follows out
          · cases h
      | false =>
          rw [selectPath_below leads inside there isFile] at h
          rcases error_of_bind_error h with h | ⟨places, listed, h⟩
          · obtain ⟨place, mem, unasked⟩ := listBelow_eq_error h
            exact .unlisted (.below leads inside there isFile mem) unasked
          · obtain ⟨rfl, asked⟩ := listBelow_ok listed
            obtain ⟨place, mem, real, isFile', follows, out, rfl⟩ := selectFiles_eq_error
              (fun place mem => (asked place mem).elim fun _ answered => ask_ok answered _) h
            exact .outside (.below leads inside there isFile mem) isFile' follows out

/-- Each obstacle stops the enumeration. -/
theorem Obstacle.stops {path : String} {f : Fault} (obstacle : t.Obstacle project path f) :
    ∃ f', t.selectPath project path = .error f' := by
  match h : t.selectPath project path with
  | .error f' => exact ⟨f', rfl⟩
  | .ok selected =>
      exfalso
      obtain ⟨start, leads, answered⟩ := ok_of_bind_ok h
      obtain ⟨answer, asked, -⟩ := ok_of_bind_ok answered
      -- what is visited can be asked, and has a name if it is a file
      have passed : ∀ place, t.Visits project path place →
          (∃ answer, t.hasPath place = .ok answer) ∧
            (t.isFile place = .ok true → ∃ name, t.nameInside project place = .ok name) := by
        intro place visits
        obtain ⟨inside, there, visited⟩ := visits.of_leads leads
        rcases visited with ⟨isFile, rfl⟩ | ⟨notFile, mem⟩
        · rw [selectPath_file leads inside isFile] at h
          obtain ⟨name, hname, -⟩ := ok_of_bind_ok h
          exact ⟨⟨true, there⟩, fun _ => ⟨name, hname⟩⟩
        · rw [selectPath_below leads inside there notFile] at h
          obtain ⟨places, listed, h⟩ := ok_of_bind_ok h
          obtain ⟨rfl, asked⟩ := listBelow_ok listed
          exact ⟨asked place mem, named_of_selectFiles h place mem⟩
      cases obstacle with
      | unresolved h => simp [h] at leads
      | unasked leads' h =>
          obtain rfl := Except.ok.inj (leads.symm.trans leads')
          simp [h] at asked
      | unlisted visits h =>
          obtain ⟨answer, asked⟩ := (passed _ visits).1
          simp [h] at asked
      | @outside place real visits isFile follows out =>
          obtain ⟨name, named⟩ := (passed _ visits).2 isFile
          obtain ⟨-, parts, follows', -⟩ := isSelected_iff.mp
            (IsSelected.mk (s := ⟨place, name⟩) isFile named)
          obtain rfl := Except.ok.inj (follows.symm.trans follows')
          exact out (List.prefix_append project parts)

variable {paths : List String}

theorem obstacle_of_selectPaths {f : Fault} (h : t.selectPaths project paths = .error f) :
    ∃ path ∈ paths, t.Obstacle project path f := by
  induction paths with
  | nil => cases h
  | cons path rest ih =>
      rcases error_of_bind_error h with h | ⟨first, -, h⟩
      · exact ⟨path, List.mem_cons_self, obstacle_of_selectPath h⟩
      · rcases error_of_bind_error h with h | ⟨others, -, h⟩
        · obtain ⟨path', mem, obstacle⟩ := ih h
          exact ⟨path', List.mem_cons_of_mem path mem, obstacle⟩
        · cases h

theorem selectPaths_ok {selected : List Selected} (h : t.selectPaths project paths = .ok selected) :
    (∀ path ∈ paths, ∀ f, ¬ t.Obstacle project path f) ∧
      ∀ s, s ∈ selected ↔ ∃ path ∈ paths, t.Visits project path s.place ∧ t.IsSelected project s := by
  induction paths generalizing selected with
  | nil =>
      cases h
      simp
  | cons path rest ih =>
      obtain ⟨first, hfirst, h⟩ := ok_of_bind_ok h
      obtain ⟨others, hothers, h⟩ := ok_of_bind_ok h
      cases h
      obtain ⟨free, mem⟩ := ih hothers
      refine ⟨List.forall_mem_cons.mpr ⟨fun f obstacle => ?_, free⟩, fun s => ?_⟩
      · obtain ⟨f', stopped⟩ := obstacle.stops
        simp [hfirst] at stopped
      · rw [List.mem_append, mem_of_selectPath hfirst, mem, List.exists_mem_cons_iff]

end Selection

/-- What stops the enumeration of the files under some paths of a project. -/
def Blocked (t : FileTree) (project : Location) (paths : List String) (f : Fault) : Prop :=
  t.resolve project = .error f ∨
    ∃ real, t.resolve project = .ok real ∧ ∃ path ∈ paths, t.Obstacle real path f

section Blocked

variable {project : Location} {paths : List String}

theorem blocked_of_selection {f : Fault} (h : t.selection project paths = .error f) :
    t.Blocked project paths f := by
  rcases error_of_bind_error h with h | ⟨real, resolved, h⟩
  · exact .inl h
  · exact .inr ⟨real, resolved, obstacle_of_selectPaths h⟩

theorem selection_ok {selected : List Selected} (h : t.selection project paths = .ok selected) :
    ∃ real, t.resolve project = .ok real ∧
      (∀ path ∈ paths, ∀ f, ¬ t.Obstacle real path f) ∧
      ∀ s, s ∈ selected ↔ ∃ path ∈ paths, t.Visits real path s.place ∧ t.IsSelected real s := by
  obtain ⟨real, resolved, h⟩ := ok_of_bind_ok h
  exact ⟨real, resolved, selectPaths_ok h⟩

theorem selection_fails_iff :
    (∃ f, t.selection project paths = .error f) ↔ ∃ f, t.Blocked project paths f := by
  constructor
  · rintro ⟨f, h⟩
    exact ⟨f, blocked_of_selection h⟩
  · rintro ⟨f, blocked⟩
    match h : t.selection project paths with
    | .error f' => exact ⟨f', rfl⟩
    | .ok selected =>
        obtain ⟨real, resolved, free, -⟩ := selection_ok h
        rcases blocked with unresolved | ⟨real', resolved', path, mem, obstacle⟩
        · simp [resolved] at unresolved
        · obtain rfl := Except.ok.inj (resolved.symm.trans resolved')
          exact absurd obstacle (free path mem f)

end Blocked

/-- Where a path leads somewhere, its last component has a place as well. -/
theorem locate_last {links : Nat} {place real : Location} {parts : List String}
    (h : t.locate true links place parts = .ok real) :
    ∃ itself, t.locate false links place parts = .ok itself := by
  fun_induction t.locate true links place parts with
  | case1 links place => exact ⟨place, by rw [locate]⟩
  | case2 | case5 | case7 | case9 => cases h
  | case3 links place c rest directory dot ih =>
      rw [locate, if_neg directory, if_pos dot]
      exact ih h
  | case4 links place rest directory dot ih =>
      rw [locate, if_neg directory, if_neg dot, if_pos rfl]
      exact ih h
  | case6 links place c rest directory dot dots short here missing last =>
      rw [locate, if_neg directory, if_neg dot, if_neg dots, if_neg short]
      simp [here, missing, last]
  | case8 links place c rest _ _ _ _ here target link itself => simp at itself
  | case10 place c rest directory dot dots short here target link notLast links ih =>
      rw [locate, if_neg directory, if_neg dot, if_neg dots, if_neg short]
      dsimp only
      rw [link]
      dsimp only
      split
      · exact ⟨_, rfl⟩
      · exact ih h
  | case11 links place c rest directory dot dots short here e notLink there ih =>
      rw [locate, if_neg directory, if_neg dot, if_neg dots, if_neg short]
      dsimp only
      split
      · rename_i missing
        simp [here, there] at missing
      · rename_i target link
        exact absurd (Option.some.inj (there.symm.trans link)) (notLink target)
      · exact ih h

section Read

variable {project : Location} {selected : List Selected}
  (spec : ∀ s ∈ selected, t.IsSelected project s)
include spec

/-- What is selected can be read. -/
theorem readSelected_of_isSelected : ∃ blob, t.readSelected selected = .ok blob := by
  induction selected with
  | nil => exact ⟨[], rfl⟩
  | cons s rest ih =>
      obtain ⟨first, others⟩ := List.forall_mem_cons.mp spec
      obtain ⟨_, c, -, -, -, read⟩ := isFile_eq_true first.isFile
      obtain ⟨blob, hblob⟩ := ih others
      exact ⟨(s.name, c) :: blob, by rw [readSelected, read, hblob]; rfl⟩

/-- What is selected can be packed. -/
theorem membersOf_of_isSelected : ∃ members, t.membersOf selected = .ok members := by
  induction selected with
  | nil => exact ⟨[], rfl⟩
  | cons s rest ih =>
      obtain ⟨first, others⟩ := List.forall_mem_cons.mp spec
      obtain ⟨_, c, follows, -, -, read⟩ := isFile_eq_true first.isFile
      obtain ⟨itself, hitself⟩ := locate_last follows
      obtain ⟨members, hmembers⟩ := ih others
      rw [membersOf, followParent, hitself, read, hmembers]
      simp only [orFault, bind, Except.bind]
      split <;> exact ⟨_, rfl⟩

end Read

end FileTree

end Conveyor
