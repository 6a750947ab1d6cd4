import Conveyor.Cache.Memory
import Conveyor.Proofs.Archive.Failure
import Conveyor.Proofs.Archive.Listing
import Conveyor.Proofs.Effect
import Conveyor.Proofs.Files.Change

/-!
The faults of the stores. The file system, a selection of files and an archive end in faults of their own;
an error that jobs declare can come only from a command runner, or from a store of another kind.
-/

namespace Conveyor

variable {α β σ : Type}

/-- An answer that is no error that jobs declare. -/
def Undeclared (answer : Except Fault α) : Prop := ∀ e, answer ≠ .error (.declared e)

namespace Undeclared

theorem ok (a : α) : Undeclared (.ok a) := nofun

theorem bind {x : Except Fault α} {f : α → Except Fault β} (hx : Undeclared x)
    (hf : ∀ a, Undeclared (f a)) : Undeclared (x >>= f) := by
  intro e h
  rcases error_of_bind_error h with h | ⟨a, -, h⟩
  · exact hx e h
  · exact hf a e h

theorem ite {c : Prop} [Decidable c] {x y : Except Fault α} (hx : Undeclared x) (hy : Undeclared y) :
    Undeclared (if c then x else y) := by
  split
  · exact hx
  · exact hy

theorem mapM {f : α → Except Fault β} (hf : ∀ a, Undeclared (f a)) (l : List α) :
    Undeclared (l.mapM f) := by
  intro e h
  obtain ⟨a, -, h⟩ := of_mapM_eq_error h
  exact hf a e h

/-- An error that is passed on. -/
theorem error {x : Except Fault α} (h : Undeclared x) {f : Fault} (failed : x = .error f) :
    Undeclared (.error f : Except Fault β) := by
  intro e declared
  cases declared
  exact h e failed

end Undeclared

namespace FileTree

theorem undeclared_orFault (l : Location) (answer : Except Refusal α) : Undeclared (orFault l answer) := by
  cases answer <;> nofun

section

variable (t : FileTree)

theorem undeclared_ask (l : Location) (p : Entry → Bool) : Undeclared (t.ask l p) := by
  refine .ite nofun ?_
  split <;> nofun

theorem undeclared_resolve (l : Location) : Undeclared (t.resolve l) := by
  refine .ite nofun ?_
  dsimp only
  split <;> nofun

theorem undeclared_tolerate (l : Location) (r : Refusal) : Undeclared (t.tolerate l r) := by
  refine .ite nofun ?_
  split
  · nofun
  · nofun
  · rename_i f asked
    exact (t.undeclared_ask l _).error asked

theorem undeclared_makeLast (l : Location) : Undeclared (t.makeLast l).1 := by
  unfold makeLast
  split
  · nofun
  · exact t.undeclared_tolerate l _

theorem undeclared_makeDirectories (l : Location) : Undeclared (t.makeDirectories l).1 := by
  rw [makeDirectories]
  split
  · rename_i f _ nul
    have checked : Undeclared (checkNul l) := .ite nofun nofun
    exact checked.error nul
  · nofun
  · split
    · nofun
    · rename_i hl
      have shorter := length_dropLast_lt hl
      have above := undeclared_makeDirectories l.dropLast
      split
      · rename_i run
        rwa [run] at above
      · exact undeclared_makeLast _ l
  · exact t.undeclared_tolerate l _
termination_by l.length

theorem undeclared_nameInside (project place : Location) : Undeclared (t.nameInside project place) := by
  refine .bind (t.undeclared_resolve place) fun real => ?_
  split <;> nofun

theorem undeclared_selectFiles (project : Location) (places : List Location) :
    Undeclared (t.selectFiles project places) := by
  induction places with
  | nil => exact .ok _
  | cons place rest ih =>
      refine .bind (t.undeclared_ask _ _) fun isFile => .ite ?_ ih
      exact .bind (t.undeclared_nameInside _ _) fun _ => .bind ih fun _ => .ok _

theorem undeclared_selectPath (project : Location) (path : String) :
    Undeclared (t.selectPath project path) := by
  have listed : ∀ place, Undeclared (t.listBelow place) := fun place =>
    .mapM (fun _ => .bind (t.undeclared_ask _ _) fun _ => .ok _) _
  refine .bind (t.undeclared_resolve _) fun place => .bind (t.undeclared_ask _ _) fun there => ?_
  refine .ite (.ok _) (.ite (.ok _) ?_)
  refine .bind (t.undeclared_ask _ _) fun isFile => .ite ?_ ?_
  · exact .bind (t.undeclared_nameInside _ _) fun _ => .ok _
  · exact .bind (listed place) fun places => t.undeclared_selectFiles project places

theorem undeclared_selection (project : Location) (paths : List String) :
    Undeclared (t.selection project paths) := by
  refine .bind (t.undeclared_resolve project) fun project => ?_
  induction paths with
  | nil => exact .ok _
  | cons path rest ih => exact .bind (t.undeclared_selectPath _ _) fun _ => .bind ih fun _ => .ok _

theorem undeclared_membersOf (selected : List Selected) : Undeclared (t.membersOf selected) := by
  induction selected with
  | nil => exact .ok _
  | cons s rest ih =>
      refine .bind (undeclared_orFault _ _) fun place => ?_
      have read : Undeclared (orFault s.place (t.readFile s.place)) := undeclared_orFault _ _
      split
      · exact .bind (.ok _) fun _ => .bind ih fun _ => .ok _
      · refine .bind ?_ fun _ => .bind ih fun _ => .ok _
        cases found : orFault s.place (t.readFile s.place) with
        | ok c => exact .ok _
        | error f => exact read.error found

theorem undeclared_readSelected (selected : List Selected) : Undeclared (t.readSelected selected) := by
  induction selected with
  | nil => exact .ok _
  | cons s rest ih => exact .bind (undeclared_orFault _ _) fun _ => .bind ih fun _ => .ok _

end

end FileTree

/-- An action that ends in no error that jobs declare. -/
def Action.Undeclared (a : Action σ α) : Prop := ∀ w, Conveyor.Undeclared (a.run.run w).1

namespace Action.Undeclared

theorem pure (a : α) : (Pure.pure a : Action σ α).Undeclared := fun _ => .ok a

theorem bind {a : Action σ α} {f : α → Action σ β} (ha : a.Undeclared) (hf : ∀ b, (f b).Undeclared) :
    (a >>= f).Undeclared := by
  intro w
  match run : a.run.run w with
  | (.ok b, w') =>
      rw [run_bind_ok run]
      exact hf b w'
  | (.error e, w') =>
      rw [run_bind_error run]
      exact (ha w).error (by rw [run])

theorem ite {c : Prop} [Decidable c] {a b : Action σ α} (ha : a.Undeclared) (hb : b.Undeclared) :
    (if c then a else b).Undeclared := by
  split
  · exact ha
  · exact hb

theorem change (l : Location) (f : FileTree → Except Refusal FileTree) :
    (Action.change l f : Action σ Unit).Undeclared := by
  intro w
  rw [Action.change, run_onFiles]
  dsimp only
  split <;> simp [Conveyor.Undeclared]

theorem ofTree {f : FileTree → Except Fault α} (h : ∀ t, Conveyor.Undeclared (f t)) :
    (ask f : Action σ α).Undeclared := fun w => h w.files

end Action.Undeclared

/-- The requests to a store end in no error that jobs declare. -/
structure Store.Undeclared (store : Store σ) : Prop where
  restore : ∀ key paths project, (store.restore key paths project).Undeclared
  save : ∀ key paths project, (store.save key paths project).Undeclared
  prune : ∀ prune, store.prune = some prune → ∀ scope keep, (prune scope keep).Undeclared

namespace MemoryStore

theorem undeclared_writeFiles (project : Location) (files : Blob) :
    (writeFiles project files : Action σ Unit).Undeclared := by
  induction files with
  | nil => exact .pure _
  | cons file rest ih =>
      exact .bind (fun w => w.files.undeclared_makeDirectories _) fun _ => .bind (.change _ _) fun _ => ih

theorem undeclared : (store : Store σ).Undeclared := by
  refine ⟨fun key paths project => ?_, fun key paths project => ?_, nofun⟩
  · refine .bind (fun _ => .ok _) fun w => ?_
    split
    · exact .pure _
    · exact .bind (undeclared_writeFiles _ _) fun _ => .pure _
  · refine .bind (.ofTree fun t => t.undeclared_selection _ _) fun selected => ?_
    exact .bind (.ofTree fun t => t.undeclared_readSelected _) fun _ => fun _ => .ok _

end MemoryStore

namespace DirectoryStore

theorem undeclared_openDirectory (root : Location) (name : String) :
    (openDirectory root name : Action σ Location).Undeclared :=
  .bind (fun w => w.files.undeclared_makeDirectories _) fun _ => .pure _

theorem undeclared_stream {ending : StreamEnding} {f : Fault} (h : Tar.StreamFault ending f)
    (e : JobError) : f ≠ .declared e := by
  cases h <;> nofun

/-- What stops an extraction is reported by a fault of the file system, of a stream or of a search. -/
theorem undeclared_extract (key : String) (project : Location) (content : Content) :
    (extract key project content : Action σ Restored).Undeclared := by
  have listed : ∀ f, (Tar.Listing.ofContent content).failure = some (.fault f) → ∀ e, f ≠ .declared e := by
    intro f failed
    cases content with
    | archive members => cases failed
    | bytes b => exact undeclared_stream (Tar.listFrom_failure failed)
  intro w
  rw [extract, Action.run_onFiles]
  dsimp only
  split
  · nofun
  · rename_i f t extracted
    cases Tar.Listing.failsIn_extract project w.files f t extracted with
    | refused | endless | nulInName | noSuchMember => nofun
    | @listed r failed =>
        cases r with
        | unreadable => nofun
        | fault f =>
            intro e declared
            exact listed f failed e (Except.error.inj declared)

theorem undeclared_restore (root : Location) (key : String) (project : Location) :
    (restore root key project : Action σ Restored).Undeclared := by
  refine .bind (undeclared_openDirectory _ _) fun _ => ?_
  refine .bind (.ofTree fun t => t.undeclared_ask _ _) fun there => .ite (.pure _) ?_
  refine .bind (.ofTree fun t => t.undeclared_resolve _) fun dest => .bind (fun _ => .ok _) fun w => ?_
  split
  · exact undeclared_extract _ _ _
  · exact .pure _

theorem undeclared_putFile (place : Location) (c : Content) (modified : Int) :
    (putFile place c modified : Action σ Unit).Undeclared :=
  .bind (.ofTree fun _ => FileTree.undeclared_orFault _ _) fun _ => .change _ _

theorem undeclared_save (root : Location) (key : String) (paths : List String) (project : Location) :
    (save root key paths project : Action σ Unit).Undeclared := by
  refine .bind (.ofTree fun t => t.undeclared_resolve _) fun dest => ?_
  refine .bind (undeclared_openDirectory _ _) fun _ => ?_
  refine .bind (.ofTree fun _ => FileTree.undeclared_orFault _ _) fun _ => ?_
  refine .bind (.ofTree fun t => t.undeclared_selection _ _) fun selected => ?_
  refine .bind (.ofTree fun t => t.undeclared_membersOf _) fun members => ?_
  refine .bind (fun _ => .ok _) fun _ => .bind (fun _ => .ok _) fun w => ?_
  exact .bind (undeclared_putFile _ _ _) fun _ => undeclared_putFile _ _ _

theorem undeclared_storedIn (t : FileTree) (directory : Location) : Undeclared (storedIn t directory) := by
  have modified : ∀ l, Undeclared (modifiedAt t l) := by
    intro l
    unfold modifiedAt
    split <;> nofun
  unfold storedIn
  induction artifactNames t directory with
  | nil => exact .ok _
  | cons name rest ih =>
      refine .bind (modified _) fun found => ?_
      split
      · exact .bind ih fun _ => .ok _
      · exact ih

theorem undeclared_removeStored (directory : Location) (stored : List Stored) :
    (removeStored directory stored : Action σ Unit).Undeclared := by
  induction stored with
  | nil => exact .pure _
  | cons s rest ih => exact .bind (.change _ _) fun _ => .bind (.change _ _) fun _ => ih

theorem undeclared_prune (root : Location) (scope : Option String) (keep : Int) :
    (prune root scope keep : Action σ Unit).Undeclared := by
  refine .bind (undeclared_openDirectory _ _) fun directory => ?_
  exact .bind (.ofTree fun t => undeclared_storedIn t directory) fun _ => undeclared_removeStored _ _

theorem undeclared (root : Location) : (store root : Store σ).Undeclared := by
  refine ⟨fun key _ project => undeclared_restore root key project,
    fun key paths project => undeclared_save root key paths project, fun prune own => ?_⟩
  cases own
  exact undeclared_prune root

end DirectoryStore

end Conveyor
