import Conveyor.Proofs.Cache.Pairing
import Conveyor.Proofs.Files.Addition
import Conveyor.Proofs.Files.Growth

/-!
The archive of a save while it is being made. It stands under its draft name and grows with each look at
the files of the project, which may see it; it is then listed with them, but is no member of itself. Where
a look fails, the draft is taken away, and however far the archive had come, the tree is then as it was.
Where no look sees the draft, a save that is made like this is the save that puts its archive in place
whole.
-/

namespace Conveyor

variable {σ : Type}

namespace DirectoryStore

/-- A look at the files of a project: what it finds with the members that are made of that, or its
failure. -/
abbrev Look := FileTree → Except Fault (List (Selected × Member))

/-- What goes into an archive that is made at a place: all that is found but the archive itself. -/
def packed (own : Location) (found : List (Selected × Member)) : List Member :=
  (found.filter (·.1.place ≠ own)).map (·.2)

theorem packed_zip {own : Location} {selected : List Selected} {members : List Member}
    (same : selected.length = members.length) (others : ∀ s ∈ selected, s.place ≠ own) :
    packed own (selected.zip members) = members := by
  have all : ∀ p ∈ selected.zip members, decide (p.1.place ≠ own) = true := fun p hp =>
    decide_eq_true (others p.1 (List.of_mem_zip hp).1)
  rw [packed, List.filter_eq_self.mpr all, List.map_snd_zip same.ge]

/-- Makes an empty archive where nothing stands. -/
def create (draft : Location) : Action σ Unit :=
  Action.change draft fun t => match t.entryAt? draft with
    | some _ => .error .alreadyExists
    | none => .ok (t.set draft (.file (.archive []) t.clock))

/-- Writes what has been found so far to the draft after each look; `own` is the path of the draft, which
may lead to its place through links. -/
def grow (own draft : Location) (found : List (Selected × Member)) :
    List Look → Action σ (List (Selected × Member))
  | [] => return found
  | look :: rest => do
    let more ← Action.ask look
    Action.onFiles fun t => (.ok (), t.set draft (.file (.archive (packed own (found ++ more))) t.clock))
    grow own draft (found ++ more) rest

/-- Makes an archive under its draft name, which is taken away where a look fails. -/
def makeDraft (own draft : Location) (looks : List Look) : Action σ (List (Selected × Member)) := do
  create draft
  match ← Action.attempt (grow own draft [] looks) with
  | .ok found => return found
  | .error f =>
    Action.onFiles fun t => (.ok (), t.removeTree draft)
    throw f

/-- What the looks find in a tree that does not change. -/
def lookAll (t : FileTree) : List Look → Except Fault (List (Selected × Member))
  | [] => .ok []
  | look :: rest => do return (← look t) ++ (← lookAll t rest)

/-- Nothing stands at the draft, and no look sees what is put there. -/
structure Unseen (t : FileTree) (draft : Location) (looks : List Look) : Prop where
  missing : t.entryAt? draft = none
  same : ∀ look ∈ looks, ∀ c m, look (t.set draft (.file c m)) = look t

/-- The looks of a save: at the real place of its project, and from there at each of its paths. -/
def saveLooks (tree : Location) (paths : List String) : List Look :=
  (fun t => do
    let _ ← t.resolve tree
    return []) ::
  paths.map fun path t => do
    let selected ← t.selectPath (← t.resolve tree) path
    return selected.zip (← t.membersOf selected)

/-- What a save does before it looks at any file: it has the real place of its project, opens the directory
of its key and has the place of the draft. -/
def approach (root : Location) (key : String) (project : Location) : Action σ (Location × Location) := do
  let tree ← Action.ask (·.resolve project)
  let _ ← openDirectory root (StoredName.ofKey key).directory
  let draft := draftPlace (artifactPlace root key)
  let place ← Action.ask fun t => FileTree.orFault draft (t.followParent draft)
  return (tree, place)

/-- What a save does before it puts anything in its place, with its archive under the draft name. -/
def gatherAside (root : Location) (key : String) (paths : List String) (project : Location) :
    Action σ (Location × List (Selected × Member)) := do
  let (tree, draft) ← approach root key project
  let found ← makeDraft (draftPlace (artifactPlace root key)) draft (saveLooks tree paths)
  return (draft, found)

theorem gather_eq (root : Location) (key : String) (paths : List String) (project : Location) :
    (gather root key paths project : Action σ (List Selected × List Member)) = (do
      let (tree, _) ← approach root key project
      let selected ← Action.ask (·.selection tree paths)
      let members ← Action.ask (·.membersOf selected)
      return (selected, members)) := by
  simp only [gather, approach, bind_assoc, pure_bind]

/-- The draft goes, and its archive is put in place with a manifest of what was found. -/
def depositAside (root : Location) (key : String) (paths : List String)
    (made : Location × List (Selected × Member)) : Action σ Unit := do
  Action.onFiles fun t => (.ok (), t.removeTree made.1)
  deposit root key paths (made.2.map (·.1), packed (draftPlace (artifactPlace root key)) made.2)

def saveAside (root : Location) (key : String) (paths : List String) (project : Location) : Action σ Unit :=
  gatherAside root key paths project >>= depositAside root key paths

/-- A tree with the archive so far at a place where nothing stood. -/
def drafted (w : World σ) (draft : Location) (written : List Member) : World σ :=
  { w with files := w.files.set draft (.file (.archive written) w.files.clock) }

section Draft

variable {w : World σ} {own draft : Location}

theorem run_write (found more : List (Selected × Member)) :
    (Action.onFiles fun t => (.ok (), t.set draft
      (.file (.archive (packed own (found ++ more))) t.clock))).run.run
        (drafted w draft (packed own found)) =
      (.ok (), drafted w draft (packed own (found ++ more))) := by
  simp only [Action.run_onFiles, drafted, FileTree.set_set]
  rfl

/-- A look that does not fail has what it finds written to the draft. -/
theorem run_grow_cons {look : Look} {found more : List (Selected × Member)}
    (looked : look (drafted w draft (packed own found)).files = .ok more) (rest : List Look) :
    (grow own draft found (look :: rest)).run.run (drafted w draft (packed own found)) =
      (grow own draft (found ++ more) rest).run.run (drafted w draft (packed own (found ++ more))) := by
  rw [grow, run_bind_ok (Action.run_ask_of looked), run_bind_ok (run_write found more)]

/-- Something that a look finds beside a draft. -/
def FoundBeside (w : World σ) (draft : Location) (looks : List Look) (p : Selected × Member) : Prop :=
  ∃ look ∈ looks, ∃ written found, look (drafted w draft written).files = .ok found ∧ p ∈ found

/-- Whatever the looks find, and wherever they fail, only the archive at the draft has grown. -/
theorem run_grow (w : World σ) (own draft : Location) (looks : List Look)
    (found : List (Selected × Member)) :
    (∃ f more, (grow own draft found looks).run.run (drafted w draft (packed own found)) =
        (.error f, drafted w draft (packed own (found ++ more)))) ∨
      ∃ more, (grow own draft found looks).run.run (drafted w draft (packed own found)) =
          (.ok (found ++ more), drafted w draft (packed own (found ++ more))) ∧
        ∀ p ∈ more, FoundBeside w draft looks p := by
  induction looks generalizing found with
  | nil => exact .inr ⟨[], by rw [List.append_nil]; rfl, by simp⟩
  | cons look rest ih =>
      cases looked : look (drafted w draft (packed own found)).files with
      | error f =>
          refine .inl ⟨f, [], ?_⟩
          rw [grow, run_bind_error (Action.run_ask_of looked), List.append_nil]
      | ok more =>
          rw [run_grow_cons looked]
          rcases ih (found ++ more) with ⟨f, others, run⟩ | ⟨others, run, seen⟩
          · exact .inl ⟨f, more ++ others, by rw [run, List.append_assoc]⟩
          · refine .inr ⟨more ++ others, by rw [run, List.append_assoc],
              List.forall_mem_append.mpr ⟨?_, ?_⟩⟩
            · exact fun p hp => ⟨look, List.mem_cons_self, _, more, looked, hp⟩
            · intro p hp
              obtain ⟨other, mem, there⟩ := seen p hp
              exact ⟨other, List.mem_cons_of_mem look mem, there⟩

/-- A draft that is made is all that is new; one that is not is no longer there. -/
theorem run_makeDraft_of_missing (rooted : w.files.Rooted) (missing : w.files.entryAt? draft = none)
    (own : Location) (looks : List Look) :
    (makeDraft own draft looks).run.run w =
      match ((grow own draft [] looks).run.run (drafted w draft [])).1 with
      | .ok found => (.ok found, drafted w draft (packed own found))
      | .error f => (.error f, w) := by
  have created : (create draft : Action σ Unit).run.run w = (.ok (), drafted w draft []) := by
    refine Action.run_change_ok ?_
    rw [missing]
  rw [makeDraft, run_bind_ok created]
  have attempted := Action.run_attempt (grow own draft [] looks) (drafted w draft [])
  have grown := run_grow w own draft looks []
  rw [show packed own [] = [] from rfl] at grown
  rcases grown with ⟨f, more, run⟩ | ⟨more, run, -⟩
  · rw [run] at attempted ⊢
    rw [run_bind_ok attempted]
    dsimp only
    rw [run_bind_ok (Action.run_onFiles _ _)]
    simp only [drafted, rooted.removeTree_set missing]
    rfl
  · rw [run] at attempted ⊢
    exact run_bind_ok attempted

/-- A draft that cannot be made, or fails at any look, leaves the world as it was; one that is made is new
and has what the looks have found beside it. -/
theorem run_makeDraft (rooted : w.files.Rooted) (own draft : Location) (looks : List Look) :
    (∃ f, (makeDraft own draft looks).run.run w = (.error f, w)) ∨
      ∃ found, (makeDraft own draft looks).run.run w = (.ok found, drafted w draft (packed own found)) ∧
        w.files.entryAt? draft = none ∧ ∀ p ∈ found, FoundBeside w draft looks p := by
  cases there : w.files.entryAt? draft with
  | some e =>
      refine .inl ⟨.file ⟨.alreadyExists, Location.text draft⟩, run_bind_error ?_⟩
      simp only [create, Action.change, Action.run_onFiles, there]
  | none =>
      have grown := run_grow w own draft looks []
      rw [show packed own [] = [] from rfl] at grown
      rw [run_makeDraft_of_missing rooted there]
      rcases grown with ⟨f, more, run⟩ | ⟨more, run, seen⟩
      · exact .inl ⟨f, by rw [run]⟩
      · exact .inr ⟨more, by rw [run]; rfl, rfl, seen⟩

/-- While no look sees the draft, the archive fails where one of the looks does. -/
theorem answer_grow {looks : List Look} (unseen : Unseen w.files draft looks) (own : Location)
    (found : List (Selected × Member)) :
    ((grow own draft found looks).run.run (drafted w draft (packed own found))).1 =
      (lookAll w.files looks).map (found ++ ·) := by
  induction looks generalizing found with
  | nil => exact congrArg Except.ok (List.append_nil found).symm
  | cons look rest ih =>
      have same : look (drafted w draft (packed own found)).files = look w.files :=
        unseen.same look List.mem_cons_self _ _
      have later : Unseen w.files draft rest :=
        ⟨unseen.missing, fun other h => unseen.same other (List.mem_cons_of_mem look h)⟩
      cases looked : look w.files with
      | error f =>
          rw [grow, run_bind_error (Action.run_ask_of (same.trans looked)), lookAll, looked]
          rfl
      | ok more =>
          rw [run_grow_cons (same.trans looked), ih later, lookAll, looked]
          cases lookAll w.files rest with
          | error f => rfl
          | ok others => exact congrArg Except.ok (List.append_assoc found more others)

/-- A draft that no look sees is made just where the looks do not fail, and has all that they find. -/
theorem run_makeDraft_unseen (rooted : w.files.Rooted) {looks : List Look}
    (unseen : Unseen w.files draft looks) (own : Location) :
    (makeDraft own draft looks).run.run w = match lookAll w.files looks with
      | .ok found => (.ok found, drafted w draft (packed own found))
      | .error f => (.error f, w) := by
  have answer := answer_grow unseen own []
  rw [show packed own [] = [] from rfl] at answer
  rw [run_makeDraft_of_missing rooted unseen.missing, answer]
  cases lookAll w.files looks <;> rfl

end Draft

section Looks

variable {t : FileTree}

theorem membersOf_append (first second : List Selected) :
    t.membersOf (first ++ second) = (do return (← t.membersOf first) ++ (← t.membersOf second)) := by
  induction first with
  | nil =>
      rw [List.nil_append, FileTree.membersOf]
      cases t.membersOf second <;> rfl
  | cons s rest ih =>
      simp only [List.cons_append, FileTree.membersOf, ih, bind_assoc]
      refine bind_congr fun place => ?_
      split <;> simp

theorem length_membersOf {selected : List Selected} {members : List Member}
    (h : t.membersOf selected = .ok members) : selected.length = members.length :=
  (FileTree.names_of_membersOf h).length_eq

theorem lookAll_paths {tree real : Location} (resolved : t.resolve tree = .ok real) (paths : List String) :
    lookAll t (paths.map fun path t => do
        let selected ← t.selectPath (← t.resolve tree) path
        return selected.zip (← t.membersOf selected)) = (do
      let selected ← t.selectPaths real paths
      return selected.zip (← t.membersOf selected)) := by
  induction paths with
  | nil => rfl
  | cons path rest ih =>
      rw [List.map_cons, lookAll, ih, resolved, FileTree.selectPaths]
      simp only [bind, Except.bind]
      cases selects : t.selectPath real path with
      | error f => rfl
      | ok first =>
          obtain ⟨members, packs⟩ :=
            FileTree.membersOf_of_isSelected (FileTree.selectPath_isSelected selects)
          cases t.selectPaths real rest with
          | error f => simp only [packs, pure, Except.pure]
          | ok others =>
              have both := membersOf_append (t := t) first others
              simp only [bind, Except.bind, packs, pure, Except.pure] at both ⊢
              cases more : t.membersOf others with
              | error f =>
                  rw [more] at both
                  simp only [both]
              | ok later =>
                  rw [more] at both
                  simp only [both, List.zip_append (length_membersOf packs)]

/-- The looks of a save find what is selected with its members, and fail where the selection does. -/
theorem lookAll_saveLooks (tree : Location) (paths : List String) :
    lookAll t (saveLooks tree paths) = (do
      let selected ← t.selection tree paths
      return selected.zip (← t.membersOf selected)) := by
  rw [saveLooks, lookAll, FileTree.selection]
  cases resolved : t.resolve tree with
  | error f => rfl
  | ok real =>
      rw [lookAll_paths resolved]
      simp only [bind, Except.bind]
      cases t.selectPaths real paths with
      | error f => rfl
      | ok selected =>
          dsimp only [pure, Except.pure]
          cases t.membersOf selected <;> rfl

end Looks

section Aside

variable {w : World σ} {root project : Location} {key : String} {paths : List String}

/-- A save comes to the files with the directory of its key open, or ends before with that at most. -/
theorem run_approach (w : World σ) (root project : Location) (key : String) :
    (∃ f t, (approach root key project).run.run w = (.error f, { w with files := t }) ∧
      (t = w.files ∨ t = (w.files.makeDirectories (keyDirectory root key)).2)) ∨
    ∃ tree draft t, (approach root key project).run.run w = (.ok (tree, draft), { w with files := t }) ∧
      w.files.resolve project = .ok tree ∧
      w.files.makeDirectories (keyDirectory root key) = (.ok (), t) ∧
      t.followParent (draftPlace (artifactPlace root key)) = .ok draft := by
  unfold approach
  cases resolved : w.files.resolve project with
  | error f => exact .inl ⟨f, w.files, run_bind_error (Action.run_ask_of resolved), .inl rfl⟩
  | ok tree =>
      rw [run_bind_ok (Action.run_ask_of resolved)]
      match made : w.files.makeDirectories (keyDirectory root key) with
      | (.error f, t) =>
          have run := Action.run_onFiles (·.makeDirectories (keyDirectory root key)) w
          rw [made] at run
          exact .inl ⟨f, t, run_bind_error (run_bind_error run), .inr rfl⟩
      | (.ok (), t) =>
          rw [run_bind_ok (run_openDirectory made)]
          dsimp only
          cases leads : t.followParent (draftPlace (artifactPlace root key)) with
          | error r =>
              refine .inl ⟨.file ⟨r, Location.text (draftPlace (artifactPlace root key))⟩, t,
                run_bind_error (Action.run_ask_of ?_), .inr rfl⟩
              exact congrArg (FileTree.orFault _) leads
          | ok draft =>
              refine .inr ⟨tree, draft, t, run_bind_ok (Action.run_ask_of ?_), rfl, rfl, leads⟩
              exact congrArg (FileTree.orFault _) leads

/-- A draft that is not there is not selected. -/
theorem not_selected_of_missing {t : FileTree} {own draft tree : Location}
    (leads : t.followParent own = .ok draft) (missing : t.entryAt? draft = none) {selected : List Selected}
    (selects : t.selection tree paths = .ok selected) : ∀ s ∈ selected, s.place ≠ own := by
  obtain ⟨real, resolved, -⟩ := ok_of_bind_ok selects
  rintro s hs rfl
  obtain ⟨place, c, follows, -, ⟨m, there⟩, -⟩ :=
    FileTree.isFile_eq_true (FileTree.selection_isSelected resolved selects s hs).isFile
  cases follows.symm.trans (FileTree.locate_of_no_link leads (by simp [missing]))
  cases there.symm.trans missing

/-- A save that makes its archive aside comes to the same as one that has it at once, if no look sees the
draft. -/
theorem run_saveAside (rooted : w.files.Rooted)
    (unseen : ∀ tree t draft, w.files.resolve project = .ok tree →
      w.files.makeDirectories (keyDirectory root key) = (.ok (), t) →
      t.followParent (draftPlace (artifactPlace root key)) = .ok draft →
      Unseen t draft (saveLooks tree paths)) :
    (saveAside root key paths project).run.run w = (save root key paths project).run.run w := by
  rw [save_eq, saveAside, gather_eq, gatherAside, bind_assoc, bind_assoc]
  rcases run_approach w root project key with
    ⟨f, t, run, -⟩ | ⟨tree, draft, t, run, resolved, made, leads⟩
  · rw [run_bind_error run, run_bind_error run]
  · have missing := (unseen tree t draft resolved made leads).missing
    have rooted' := rooted.makeDirectories (keyDirectory root key)
    rw [made] at rooted'
    have drafts := run_makeDraft_unseen (w := { w with files := t }) rooted'
      (unseen tree t draft resolved made leads) (draftPlace (artifactPlace root key))
    rw [lookAll_saveLooks] at drafts
    rw [run_bind_ok run, run_bind_ok run]
    dsimp only at drafts ⊢
    rw [bind_assoc, bind_assoc, Action.run_ask_bind]
    cases selects : t.selection tree paths with
    | error f =>
        rw [selects] at drafts
        exact run_bind_error drafts
    | ok selected =>
        dsimp only
        rw [bind_assoc, Action.run_ask_bind]
        cases packs : t.membersOf selected with
        | error f =>
            simp only [selects, packs, bind, Except.bind] at drafts
            exact run_bind_error drafts
        | ok members =>
            simp only [selects, packs, bind, Except.bind, pure, Except.pure] at drafts
            have same := length_membersOf packs
            rw [run_bind_ok drafts]
            dsimp only
            rw [pure_bind, pure_bind, depositAside, run_bind_ok (Action.run_onFiles _ _),
              List.map_fst_zip same.le, packed_zip same (not_selected_of_missing leads missing selects)]
            simp only [drafted, rooted'.removeTree_set missing]

end Aside

end DirectoryStore

end Conveyor
