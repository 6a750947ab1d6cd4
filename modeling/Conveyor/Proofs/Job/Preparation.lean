import Conveyor.Proofs.Effect
import Conveyor.Proofs.Files.Growth
import Conveyor.Proofs.Job.Calls

/-!
Preparing the workspace of a job. Directories are added on the way to those that are needed, and nothing
else is changed; so preparing it again gives the same, unless a path that led nowhere before now goes
round in links.
-/

namespace Conveyor

theorem ok_of_mapError_ok {ε ε' α : Type} {x : Except ε α} {f : ε → ε'} {a : α}
    (h : x.mapError f = .ok a) : x = .ok a := by
  cases x with
  | error e => cases h
  | ok b =>
      cases h
      rfl

/-- The parts of a preparation that succeeds: only making the directories changes the tree. -/
theorem Job.prepare_ok {job : Job} {base : Environment} {globals : Variables} {project : Location}
    {t t' : FileTree} {w : Workspace} (h : job.prepare base globals project t = (.ok w, t')) :
    t.resolve project = .ok w.project ∧ t.isDirectory w.project = .ok true ∧
      w.environment = base.merge [globals.layer, job.bindings.layer] ∧
      neededDirectories t w.project job = .ok w.directories ∧
      makeWorkspaceDirectories job.name t w.directories = (.ok (), t') := by
  unfold prepare at h
  dsimp only at h
  split at h
  · cases h
  · rename_i plan
    obtain ⟨root, resolved, plan⟩ := ok_of_bind_ok plan
    obtain ⟨is, directory, plan⟩ := ok_of_bind_ok plan
    cases is with
    | false => cases plan
    | true =>
        obtain ⟨places, needed, plan⟩ := ok_of_bind_ok plan
        cases plan
        split at h
        · rename_i made
          cases h
          exact ⟨ok_of_mapError_ok resolved, ok_of_mapError_ok directory, rfl,
            ok_of_mapError_ok needed, made⟩
        · cases h

theorem Job.prepare_eq (job : Job) (base : Environment) (globals : Variables) {project root : Location}
    {t : FileTree} (resolved : t.resolve project = .ok root) (directory : t.isDirectory root = .ok true) :
    job.prepare base globals project t = match neededDirectories t root job with
      | .error f => (.error (.fault f), t)
      | .ok places => match makeWorkspaceDirectories job.name t places with
        | (.ok (), t) => (.ok ⟨base.merge [globals.layer, job.bindings.layer], root, places⟩, t)
        | (.error f, t) => (.error f, t) := by
  unfold prepare
  simp only [resolved, directory, Except.mapError, bind, Except.bind]
  cases neededDirectories t root job <;> rfl

theorem makeWorkspaceDirectories_of_there (job : String) {t : FileTree} {places : List Location}
    (there : ∀ place ∈ places, t.isDirectory place = .ok true) :
    makeWorkspaceDirectories job t places = (.ok (), t) := by
  induction places with
  | nil => rfl
  | cons place rest ih =>
      obtain ⟨first, others⟩ := List.forall_mem_cons.mp there
      rw [makeWorkspaceDirectories, first]
      exact ih others

/-- Each place is a directory in the end, and nothing is new but directories on the way to them. -/
theorem makeWorkspaceDirectories_ok {job : String} {t t' : FileTree} {places : List Location}
    (h : makeWorkspaceDirectories job t places = (.ok (), t')) :
    t.Gains t' (fun l => ∃ place ∈ places, t'.LeadsAbove place l) ∧
      ∀ place ∈ places, t'.isDirectory place = .ok true := by
  induction places generalizing t with
  | nil =>
      cases h
      exact ⟨.refl _ _, nofun⟩
  | cons place rest ih =>
      have next : ∀ {t₁ : FileTree}, t.Gains t₁ (t₁.LeadsAbove place) → t₁.isDirectory place = .ok true →
          makeWorkspaceDirectories job t₁ rest = (.ok (), t') →
          t.Gains t' (fun l => ∃ p ∈ place :: rest, t'.LeadsAbove p l) ∧
            ∀ p ∈ place :: rest, t'.isDirectory p = .ok true := by
        intro t₁ gains directory h
        obtain ⟨gains', directories⟩ := ih h
        refine ⟨.trans (gains.mono fun l made leads => ?_) (gains'.mono fun l _ ⟨p, hp, leads⟩ => ?_),
          List.forall_mem_cons.mpr ⟨gains'.grows.isDirectory directory, directories⟩⟩
        · exact ⟨place, List.mem_cons_self,
            gains'.grows.leadsAbove leads (gains'.grows _ _ made) (by simp)⟩
        · exact ⟨p, List.mem_cons_of_mem place hp, leads⟩
      unfold makeWorkspaceDirectories at h
      split at h
      · cases h
      · rename_i there
        exact next (.refl _ _) there h
      · cases h
      · cases h
      · split at h
        · rename_i made
          have gains := t.makeDirectories_gains place
          rw [made] at gains
          exact next gains (FileTree.makeDirectories_ok made) h
        · cases h

/-- The paths of a job's cache, seen from its project. -/
def Job.cachePlaces (job : Job) (project : Location) : List Location :=
  (job.cache.elim [] (·.paths)).map fun path => Location.ofPath project (Path.ofText path)

theorem neededDirectory_ok {t : FileTree} {project place : Location} {path : String}
    (h : neededDirectory t project path = .ok place) : ∃ real,
      t.resolve (Location.ofPath project (Path.ofText path)) = .ok real ∧
        place = if path.endsWith "/" then real else real.parent := by
  obtain ⟨real, resolved, h⟩ := ok_of_bind_ok h
  exact ⟨real, resolved, (Except.ok.inj h).symm⟩

/-- The directories that a job needs in a tree with the same links. -/
theorem neededDirectories_again {t t' : FileTree} (same : t.SameLinks t') {project : Location} {job : Job}
    {places : List Location} (h : neededDirectories t project job = .ok places) :
    ((∀ l ∈ job.cachePlaces project, ¬ t'.Loops l) → neededDirectories t' project job = .ok places) ∧
      ((∃ l ∈ job.cachePlaces project, t'.Loops l) →
        ∃ real, neededDirectories t' project job = .error (.linkLoop real)) := by
  unfold neededDirectories Job.cachePlaces at *
  cases cache : job.cache with
  | none =>
      rw [cache] at h
      exact ⟨fun _ => h, fun ⟨l, hl, _⟩ => by cases hl⟩
  | some c =>
      rw [cache] at h
      obtain ⟨found, asked, h⟩ := ok_of_bind_ok h
      dsimp only [Option.elim_some]
      -- what each path comes to in the second tree, by whether it goes round in links there
      have again : ∀ path ∈ c.paths, ∃ real,
          neededDirectory t project path = .ok (if path.endsWith "/" then real else real.parent) ∧
          (¬ t'.Loops (Location.ofPath project (Path.ofText path)) →
            neededDirectory t' project path = neededDirectory t project path) ∧
          (t'.Loops (Location.ofPath project (Path.ofText path)) →
            neededDirectory t' project path = .error (.linkLoop (Location.text real))) := by
        intro path hpath
        obtain ⟨place, needed⟩ := of_mapM_eq_ok asked path hpath
        obtain ⟨real, resolved, rfl⟩ := neededDirectory_ok needed
        obtain ⟨leads, loops⟩ := same.resolve_again resolved
        refine ⟨real, needed, fun h => ?_, fun h => ?_⟩
        · rw [neededDirectory, leads h, neededDirectory, resolved]
        · rw [neededDirectory, loops h]
          rfl
      constructor
      · intro clean
        have all : c.paths.mapM (neededDirectory t' project) = .ok found := by
          rw [← asked]
          refine mapM_congr fun path hpath => ?_
          obtain ⟨_, -, leads, -⟩ := again path hpath
          exact leads (clean _ (List.mem_map_of_mem hpath))
        simp only [all, bind, Except.bind]
        exact h
      · rintro ⟨l, hl, looping⟩
        obtain ⟨path, hpath, rfl⟩ := List.mem_map.mp hl
        cases all : c.paths.mapM (neededDirectory t' project) with
        | ok places' =>
            obtain ⟨_, needed⟩ := of_mapM_eq_ok all path hpath
            obtain ⟨_, -, -, loops⟩ := again path hpath
            cases needed.symm.trans (loops looping)
        | error f =>
            obtain ⟨other, hother, failed⟩ := of_mapM_eq_error all
            obtain ⟨real, needed, leads, loops⟩ := again other hother
            refine ⟨Location.text real, ?_⟩
            by_cases h : t'.Loops (Location.ofPath project (Path.ofText other))
            · cases failed.symm.trans (loops h)
              rfl
            · cases (failed.symm.trans (leads h)).trans needed

theorem isPlain_of_neededDirectories {t : FileTree} {project : Location} {job : Job}
    {places : List Location} (h : neededDirectories t project job = .ok places) :
    ∀ place ∈ places, ∀ c ∈ place, IsPlain c := by
  unfold neededDirectories at h
  cases cache : job.cache with
  | none =>
      rw [cache] at h
      cases h
      exact nofun
  | some c =>
      rw [cache] at h
      obtain ⟨found, asked, h⟩ := ok_of_bind_ok h
      obtain rfl := Except.ok.inj h
      intro place hplace
      obtain ⟨path, -, needed⟩ := mem_of_mapM_eq_ok asked place (List.mem_eraseDups.mp hplace)
      obtain ⟨real, resolved, rfl⟩ := neededDirectory_ok needed
      have plain : ∀ c ∈ real, IsPlain c :=
        (FileTree.resolve_ok resolved).1 ▸ t.isPlain_resolveFrom [] _ (by simp)
      split
      · exact plain
      · exact fun c hc => plain c (List.mem_of_mem_dropLast hc)

/-- What a second preparation comes to, in the tree that the first has left. -/
theorem Job.prepare_again {job : Job} {base : Environment} {globals : Variables} {project : Location}
    {t t' : FileTree} {w : Workspace} (h : job.prepare base globals project t = (.ok w, t')) :
    ((∀ l ∈ job.cachePlaces w.project, ¬ t'.Loops l) →
        job.prepare base globals project t' = (.ok w, t')) ∧
      ((∃ l ∈ job.cachePlaces w.project, t'.Loops l) → ∃ real,
        job.prepare base globals project t' = (.error (.fault (.linkLoop real)), t')) := by
  obtain ⟨resolved, directory, environment, needed, made⟩ := Job.prepare_ok h
  obtain ⟨gains, directories⟩ := makeWorkspaceDirectories_ok made
  have directory' := gains.grows.isDirectory directory
  have notLooping : ¬ t'.Loops project := by
    obtain ⟨-, place, leads, -⟩ := (t'.isDirectory_eq_true_iff w.project).mp directory'
    rw [FileTree.Loops, ← FileTree.resolveFrom_congr gains.sameLinks,
      (FileTree.resolve_ok resolved).1, leads]
    exact nofun
  have again :=
    job.prepare_eq base globals ((gains.sameLinks.resolve_again resolved).1 notLooping) directory'
  obtain ⟨clean, looping⟩ := neededDirectories_again gains.sameLinks needed
  constructor
  · intro none
    rw [again, clean none]
    dsimp only
    rw [makeWorkspaceDirectories_of_there job.name directories, ← environment]
  · intro some
    obtain ⟨real, failed⟩ := looping some
    rw [again, failed]
    exact ⟨real, rfl⟩

/-- A preparation that succeeds changes nothing but that directories are new, each of them a needed one or
above it. A second one changes nothing and gives the same, unless a path of the cache now goes round in
links; none does whose links could all be resolved before. -/
theorem Job.prepare_repeats_unless_looping (job : Job) (base : Environment) (globals : Variables)
    (project : Location) {t t' : FileTree} {w : Workspace}
    (prepared : job.prepare base globals project t = (.ok w, t')) :
    t.Gains t' (fun l => ∃ place ∈ w.directories, t'.LeadsAbove place l ∧ (t.LinkFree place → l <+: place)) ∧
    ((∀ l ∈ job.cachePlaces w.project, ¬ t'.Loops l) →
      job.prepare base globals project t' = (.ok w, t')) ∧
    ((∃ l ∈ job.cachePlaces w.project, t'.Loops l) → ∃ real,
      job.prepare base globals project t' = (.error (.fault (.linkLoop real)), t')) ∧
    ∀ l ∈ job.cachePlaces w.project, (t.resolveFrom [] [] l).2 = true → ¬ t'.Loops l := by
  obtain ⟨-, -, -, needed, made⟩ := Job.prepare_ok prepared
  obtain ⟨gains, -⟩ := makeWorkspaceDirectories_ok made
  obtain ⟨repeats, fails⟩ := Job.prepare_again prepared
  refine ⟨gains.mono fun l _ ⟨place, hplace, leads⟩ => ⟨place, hplace, leads, fun free => ?_⟩, repeats,
    fails, fun l _ whole => ?_⟩
  · exact leads.prefix_of_linkFree (isPlain_of_neededDirectories needed place hplace)
      ((gains.sameLinks.linkFree_iff place).mp free)
  · rw [FileTree.resolveFrom_congr gains.sameLinks] at whole
    exact FileTree.not_loops_of_whole whole

section Sample

/-- A link that leads to itself by way of a directory that is missing. -/
def returningTree : FileTree := ({} : FileTree).set ["l"] (.link "m/../l")

def returnedTree : FileTree := returningTree.set ["m"] .directory

def returningJob : Job :=
  { name := "j", stage := "s", script := ["make"], cache := some { paths := ["l", "m/"], key := some "k" } }

theorem wellFormed_returningTree : returningTree.WellFormed := FileTree.wellFormed_of_entries (by decide)

theorem target_returningTree : pathParts "m/../l" = ["m", "..", "l"] := by decide

theorem linkStart_returningTree : FileTree.linkStart [] "m/../l" = [] := by simp [FileTree.linkStart]

theorem link_returningTree : returningTree.entryAt? ["l"] = some (.link "m/../l") := rfl

theorem missing_returningTree : returningTree.entryAt? ["m"] = none := rfl

theorem plain_returningTree : IsPlain "l" ∧ IsPlain "m" := by simp [IsPlain]

theorem short_returningTree :
    ¬ FileTree.nameLimit < "l".utf8ByteSize ∧ ¬ FileTree.nameLimit < "m".utf8ByteSize := by decide

theorem resolveFrom_returningTree : returningTree.resolveFrom [] [] ["l"] = (["l"], false) := by
  simp [FileTree.resolveFrom, link_returningTree, linkStart_returningTree, target_returningTree,
    missing_returningTree, Location.parent, FileTree.foldDots]

/-- The link is left as it stands, and looking it up ends where the directory is missing. -/
theorem resolve_returningTree : returningTree.resolve ["l"] = .ok ["l"] := by
  have ended : returningTree.follow ["l"] = .error .notFound := by
    rw [FileTree.follow, FileTree.linkLimit, FileTree.locate_step _ _ _ _ rfl plain_returningTree.1
      short_returningTree.1]
    show returningTree.locate true 39 (FileTree.linkStart [] "m/../l") (pathParts "m/../l" ++ []) = _
    rw [linkStart_returningTree, target_returningTree]
    exact FileTree.locate_step _ _ _ _ rfl plain_returningTree.2 short_returningTree.2
  rw [FileTree.resolve, FileTree.noNul_of_names (l := ["l"]) (by decide), resolveFrom_returningTree]
  simp [ended]

/-- With the directory there, the link leads to itself again, however many links may be followed. -/
theorem locate_returnedTree (links : Nat) : returnedTree.locate true links [] ["l"] = .error .linkLoop := by
  induction links with
  | zero => exact FileTree.locate_step _ _ _ _ rfl plain_returningTree.1 short_returningTree.1
  | succ links ih =>
      rw [FileTree.locate_step _ _ _ _ rfl plain_returningTree.1 short_returningTree.1]
      show returnedTree.locate true links (FileTree.linkStart [] "m/../l") (pathParts "m/../l" ++ []) = _
      rw [linkStart_returningTree, target_returningTree, List.append_nil,
        FileTree.locate_step _ _ _ _ rfl plain_returningTree.2 short_returningTree.2]
      show returnedTree.locate true links ["m"] ["..", "l"] = _
      rw [FileTree.locate, if_neg (by simp [FileTree.isDirectoryAt]; rfl), if_neg (by simp), if_pos rfl]
      exact ih

theorem makeDirectories_returningTree : returningTree.makeDirectories ["m"] = (.ok (), returnedTree) := by
  rw [FileTree.makeDirectories, FileTree.checkNul, FileTree.noNul_of_names (l := ["m"]) (by decide),
    wellFormed_returningTree.makeDirectory_new (by decide) rfl missing_returningTree]
  rfl

theorem loops_returnedTree : returnedTree.Loops ["l"] := by
  have same := (returningTree.makeDirectories_gains ["m"]).sameLinks
  rw [makeDirectories_returningTree] at same
  rw [FileTree.Loops, ← FileTree.resolveFrom_congr same, resolveFrom_returningTree]
  exact locate_returnedTree _

theorem prepare_returningJob :
    returningJob.prepare [] [] [] returningTree = (.ok ⟨[], [], [[], ["m"]]⟩, returnedTree) := by
  have root : returningTree.isDirectory [] = .ok true :=
    wellFormed_returningTree.ask_eq (FileTree.entryAt?_nil _) (by simp) _
  have free : returningTree.LinkFree ["m"] := by
    intro place hplace target
    rcases List.prefix_cons_iff.mp hplace with rfl | ⟨rest, rfl, hrest⟩
    · simp
    · rw [List.prefix_nil.mp hrest, missing_returningTree]
      simp
  have asked : ∀ p, returningTree.ask ["m"] p = .ok false :=
    FileTree.ask_of_none (by decide) free missing_returningTree
  have link : neededDirectory returningTree [] "l" = .ok [] := by
    have place : Location.ofPath [] (Path.ofText "l") = ["l"] := by decide
    have slash : "l".endsWith "/" = false := by decide +kernel
    rw [neededDirectory, place, resolve_returningTree, slash]
    rfl
  have directory : neededDirectory returningTree [] "m/" = .ok ["m"] := by
    have place : Location.ofPath [] (Path.ofText "m/") = ["m"] := by decide
    have slash : "m/".endsWith "/" = true := by decide +kernel
    rw [neededDirectory, place, FileTree.resolve_eq (by decide) free, slash]
    rfl
  have needed : neededDirectories returningTree [] returningJob = .ok [[], ["m"]] := by
    simp only [neededDirectories, returningJob, List.mapM_cons, List.mapM_nil, link, directory]
    rfl
  have made : makeWorkspaceDirectories "j" returningTree [[], ["m"]] = (.ok (), returnedTree) := by
    rw [makeWorkspaceDirectories, root]
    show makeWorkspaceDirectories "j" returningTree [["m"]] = _
    simp only [makeWorkspaceDirectories, FileTree.isDirectory, FileTree.hasPath, asked,
      makeDirectories_returningTree]
  rw [returningJob.prepare_eq [] [] (wellFormed_returningTree.resolve_directory rfl) root, needed]
  dsimp only
  rw [show returningJob.name = "j" from rfl, made]
  rfl

/-- The workspace is prepared, and then it cannot be prepared again. -/
theorem prepare_repeats_of_sample :
    returningJob.prepare [] [] [] returningTree = (.ok ⟨[], [], [[], ["m"]]⟩, returnedTree) ∧
      ∃ real, returningJob.prepare [] [] [] returnedTree =
        (.error (.fault (.linkLoop real)), returnedTree) := by
  obtain ⟨-, -, fails, -⟩ := returningJob.prepare_repeats_unless_looping [] [] [] prepare_returningJob
  exact ⟨prepare_returningJob, fails ⟨["l"], by decide, loops_returnedTree⟩⟩

/-- Preparing a workspace again may fail. -/
theorem prepare_may_not_repeat : ¬ ∀ (job : Job) (base : Environment) (globals : Variables)
    (project : Location) (t t' : FileTree) (w : Workspace),
    job.prepare base globals project t = (.ok w, t') →
      job.prepare base globals project t' = (.ok w, t') := by
  intro repeats
  obtain ⟨real, failed⟩ := (Job.prepare_again prepare_returningJob).2 ⟨["l"], by decide, loops_returnedTree⟩
  cases (repeats _ _ _ _ _ _ _ prepare_returningJob).symm.trans failed

end Sample

end Conveyor
