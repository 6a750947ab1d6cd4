import Conveyor.Proofs.Cache.Enumeration
import Conveyor.Proofs.Cache.Manifest
import Conveyor.Proofs.Cache.Shelf

/-!
The two files of a key. A store that is saved to, asked and pruned keeps an archive exactly where it keeps
a manifest, the manifest lists what the archive was made of, and nothing else stands in the store.
-/

namespace Conveyor

variable {σ : Type}

namespace DirectoryStore

open FileTree

variable {root : Location}

/-- What a save does before it puts anything in its place. -/
def gather (root : Location) (key : String) (paths : List String) (project : Location) :
    Action σ (List Selected × List Member) := do
  let project ← Action.ask (·.resolve project)
  let _ ← openDirectory root (StoredName.ofKey key).directory
  let draft := draftPlace (artifactPlace root key)
  let _ ← Action.ask fun t => orFault draft (t.followParent draft)
  let selected ← Action.ask (·.selection project paths)
  let members ← Action.ask (·.membersOf selected)
  return (selected, members)

/-- Puts what has been gathered in its place. -/
def deposit (root : Location) (key : String) (paths : List String) (found : List Selected × List Member) :
    Action σ Unit := do
  modify fun w => { w with files := { w.files with clock := w.files.clock + 1 } }
  let now := (← get).files.clock
  putFile (artifactPlace root key) (.archive found.2) now
  putFile (manifestPlace root key) (.ofText (Manifest.text ⟨key, paths, found.1.map (·.name), now⟩)) now

theorem save_eq (root : Location) (key : String) (paths : List String) (project : Location) :
    (save root key paths project : Action σ Unit) =
      gather root key paths project >>= deposit root key paths := by
  simp only [save, gather, deposit, bind_assoc, pure_bind]

/-- Once the directory of a key is open, what has been gathered is put there with its manifest. -/
theorem Ready.run_deposit {w : World σ} {t : FileTree} {key : String} (ready : Ready w.files root key)
    (opened : w.files.Opened t (keyDirectory root key)) (paths : List String) (selected : List Selected)
    (members : List Member) : ∃ t', (deposit root key paths (selected, members)).run.run
        { w with files := t } = (.ok (), { w with files := t' }) ∧ SavedTo w.files t' root key members ∧
      ∃ now, t'.HasFile (manifestPlace root key)
        (.ofText (Manifest.text ⟨key, paths, selected.map (·.name), now⟩)) := by
  have ticked : w.files.Opened { t with clock := t.clock + 1 } (keyDirectory root key) :=
    ⟨opened.wellFormed.tick _, opened.view⟩
  obtain ⟨t', put, saved, told⟩ := ready.putFiles ticked members
    (.ofText (Manifest.text ⟨key, paths, selected.map (·.name), t.clock + 1⟩)) (t.clock + 1)
  refine ⟨t', ?_, saved, _, told⟩
  rw [deposit, run_bind_ok (run_modify _ _), run_bind_ok (run_get _)]
  exact put

/-- A name by which the draft of an archive is told, seen from a directory above it. -/
def TellsDraft (draft : Location) (name : String) : Prop :=
  ∃ above parts, draft = above ++ parts ∧ name = keptName parts

/-- How the members of an archive are listed: by the names that they were made from, in their order, and
between them at most the draft of the archive, which is found like any file but is no member of itself. -/
inductive Names (draft : Location) : List String → List Member → Prop
  | nil : Names draft [] []
  | member {name : String} {m : Member} {names : List String} {members : List Member}
      (named : m.name = Tar.memberName name) (rest : Names draft names members) :
      Names draft (name :: names) (m :: members)
  | draft {name : String} {names : List String} {members : List Member} (own : TellsDraft draft name)
      (rest : Names draft names members) : Names draft (name :: names) members

section Names

variable {draft : Location} {names : List String} {members : List Member}

/-- Where the draft is not listed and no name has a slash at its ends, the members have just those names. -/
theorem Names.eq (h : Names draft names members) (whole : ∀ n ∈ names, ¬TellsDraft draft n ∧
      n.toList.head? ≠ some '/' ∧ n.toList.getLast? ≠ some '/') : members.map (·.name) = names := by
  induction h with
  | nil => rfl
  | member named rest ih =>
      obtain ⟨⟨-, front, back⟩, others⟩ := List.forall_mem_cons.mp whole
      rw [List.map_cons, ih others, named, Tar.memberName_eq front back]
  | draft own rest ih => exact absurd own (whole _ List.mem_cons_self).1

theorem Names.of_selected {selected : List Selected}
    (h : List.Forall₂ (fun (s : Selected) (m : Member) => m.name = Tar.memberName s.name) selected
      members) :
    Names draft (selected.map (·.name)) members := by
  induction h with
  | nil => exact .nil
  | cons named rest ih => exact .member named ih

end Names

/-- The two files of a key: neither is there, or the second lists what the first was made of. -/
inductive PairOf (t : FileTree) (root : Location) (key : String) : Prop
  | neither (artifact : t.entryAt? (artifactPlace root key) = none)
      (manifest : t.entryAt? (manifestPlace root key) = none)
  | both {members : List Member} {names : List String} {c : Content}
      (artifact : t.HasFile (artifactPlace root key) (.archive members))
      (manifest : t.HasFile (manifestPlace root key) c) (lists : Manifest.Lists c key names)
      (named : Names (draftPlace (artifactPlace root key)) names members)

theorem PairOf.congr {t t' : FileTree} {key : String} (pair : PairOf t root key)
    (artifact : t'.entryAt? (artifactPlace root key) = t.entryAt? (artifactPlace root key))
    (manifest : t'.entryAt? (manifestPlace root key) = t.entryAt? (manifestPlace root key)) :
    PairOf t' root key := by
  cases pair with
  | neither noArtifact noManifest => exact .neither (artifact.trans noArtifact) (manifest.trans noManifest)
  | both hasArtifact hasManifest lists named =>
      obtain ⟨m, hasArtifact⟩ := hasArtifact
      obtain ⟨n, hasManifest⟩ := hasManifest
      exact .both ⟨m, artifact.trans hasArtifact⟩ ⟨n, manifest.trans hasManifest⟩ lists named

/-- What belongs in a store: the directory of a key, and its two files there. -/
def Belongs (root l : Location) (e : Entry) : Prop :=
  ∃ key, l = keyDirectory root key ∧ e = .directory ∨ l = artifactPlace root key ∨
    l = manifestPlace root key

theorem belongs_of_above {key : String} {parts : List String} (proper : parts ≠ [])
    (above : root ++ parts <+: keyDirectory root key) : Belongs root (root ++ parts) .directory := by
  rcases List.prefix_concat_iff.mp above with same | above
  · exact ⟨key, .inl ⟨same, rfl⟩⟩
  · have short := above.length_le
    have := List.length_pos_of_ne_nil proper
    rw [List.length_append] at short
    omega

/-- Nothing that belongs in a store has the name of a file that is being written. -/
theorem Belongs.not_draft {l : Location} {name : String} {e : Entry}
    (belongs : Belongs root (l ++ [name]) e) :
    ¬".tmp".toList <:+ name.toList := by
  rintro ⟨start, text⟩
  obtain ⟨key, ⟨same, -⟩ | same | same⟩ := belongs
  · have last : name = (StoredName.ofKey key).directory := by
      simpa [keyDirectory] using congrArg List.getLast? same
    refine (StoredName.directory_chars key '.' ?_).ne_dot rfl
    rw [← last, ← text]
    simp
  · have last : name = (StoredName.ofKey key).artifact := by
      simpa [artifactPlace] using congrArg List.getLast? same
    have ending := congrArg List.getLast? text
    simp [last, StoredName.artifact, artifactEnding] at ending
  · have last : name = (StoredName.ofKey key).manifest := by
      simpa [manifestPlace] using congrArg List.getLast? same
    have ending := congrArg List.getLast? text
    simp [last, StoredName.manifest, manifestEnding] at ending

/-- A tree with a store in which the files of all keys are paired and nothing else stands. -/
structure Paired (root : Location) (t : FileTree) : Prop where
  wellFormed : t.WellFormed
  base : t.entryAt? root = some .directory
  belongs : ∀ parts e, parts ≠ [] → t.entryAt? (root ++ parts) = some e → Belongs root (root ++ parts) e
  pairs : ∀ key, PairOf t root key

section Draft

variable {w w' : World σ} (wf : w.files.WellFormed) {directory : Location}
  (there : w.files.entryAt? directory = some .directory) (key ending : String)
  (slash : '/' ∉ (ending ++ draftEnding).toList) (nul : '\x00' ∉ (ending ++ draftEnding).toList)
include wf there slash nul

/-- A file with the name of a key is drafted in a directory, or its name is too long for that. -/
theorem run_askDraft_cases :
    (Action.ask fun t => orFault (draftPlace (directory ++ [(StoredName.ofKey key).name ++ ending]))
        (t.followParent (draftPlace (directory ++ [(StoredName.ofKey key).name ++ ending])))).run.run w =
        (.ok (directory ++ [(StoredName.ofKey key).name ++ ending ++ draftEnding]), w) ∧
        IsName ((StoredName.ofKey key).name ++ ending ++ draftEnding) ∨
      ∃ f, (Action.ask fun t => orFault (draftPlace (directory ++ [(StoredName.ofKey key).name ++ ending]))
        (t.followParent (draftPlace (directory ++ [(StoredName.ofKey key).name ++ ending])))).run.run w =
        (.error f, w) := by
  by_cases long : nameLimit < ((StoredName.ofKey key).name ++ (ending ++ draftEnding)).utf8ByteSize
  · have component := StoredName.isComponent_name key (ending ++ draftEnding) slash
    have draft : draftPlace (directory ++ [(StoredName.ofKey key).name ++ ending]) =
        directory ++ [(StoredName.ofKey key).name ++ (ending ++ draftEnding)] := by
      simp [draftPlace, String.append_assoc]
    have refused : w.files.followParent
        (draftPlace (directory ++ [(StoredName.ofKey key).name ++ ending])) = .error .nameTooLong := by
      rw [draft, followParent, wf.locate_long there component long]
    exact .inr ⟨_, Action.run_ask_of (congrArg (orFault _) refused)⟩
  · have name := StoredName.isName_of_short key slash nul (Nat.not_lt.mp long)
    rw [← String.append_assoc] at name
    exact .inl ⟨run_askDraft wf there name, name⟩

theorem isName_of_putFile {c : Content} {m : Int}
    (run : (putFile (directory ++ [(StoredName.ofKey key).name ++ ending]) c m).run.run w = (.ok (), w')) :
    IsName ((StoredName.ofKey key).name ++ ending ++ draftEnding) := by
  rcases run_askDraft_cases wf there key ending slash nul with ⟨-, name⟩ | ⟨f, refused⟩
  · exact name
  · rw [putFile, run_bind_error refused] at run
    cases run

end Draft

section Gather

variable {w : World σ} (wf : w.files.WellFormed) (base : w.files.entryAt? root = some .directory)
  {key : String} (old : w.files.entryAt? (keyDirectory root key) = none ∨
    w.files.entryAt? (keyDirectory root key) = some .directory)
include wf base old

/-- The directory of a key is opened, or its name is too long and nothing is changed. -/
theorem makeDirectories_cases : (∃ t, w.files.makeDirectories (keyDirectory root key) = (.ok (), t) ∧
      w.files.Opened t (keyDirectory root key) ∧ IsName (StoredName.ofKey key).directory) ∨
    nameLimit < (StoredName.ofKey key).directory.utf8ByteSize ∧
      ∃ f, w.files.makeDirectories (keyDirectory root key) = (.error f, w.files) :=
  wf.makeDirectories_child base (StoredName.isComponent_directory key)
    (fun h => (StoredName.directory_chars key _ h).ne_nul rfl) old

theorem run_openDirectory_cases :
    (∃ t, w.files.makeDirectories (keyDirectory root key) = (.ok (), t) ∧
        (openDirectory root (StoredName.ofKey key).directory).run.run w =
          (.ok (keyDirectory root key), { w with files := t }) ∧ w.files.Opened t (keyDirectory root key) ∧
        IsName (StoredName.ofKey key).directory) ∨
      ∃ f, (openDirectory root (StoredName.ofKey key).directory).run.run w = (.error f, w) := by
  rcases makeDirectories_cases wf base old with ⟨t, made, opened, name⟩ | ⟨-, f, refused⟩
  · exact .inl ⟨t, made, run_openDirectory made, opened, name⟩
  · have run := Action.run_onFiles (·.makeDirectories (keyDirectory root key)) w
    rw [refused] at run
    exact .inr ⟨f, run_bind_error run⟩

/-- What is gathered is packed member by member, and nothing is changed but that the directory of the key is
there. -/
theorem run_gather_cases {P : FileTree → Prop} (start : P w.files)
    (opens : ∀ t, w.files.makeDirectories (keyDirectory root key) = (.ok (), t) →
      w.files.Opened t (keyDirectory root key) → P t) (paths : List String) (project : Location) :
    (∃ f w', (gather root key paths project).run.run w = (.error f, w') ∧ P w'.files) ∨
      ∃ t selected members, (gather root key paths project).run.run w =
          (.ok (selected, members), { w with files := t }) ∧ P t ∧ w.files.Opened t (keyDirectory root key) ∧
        IsName (StoredName.ofKey key).directory ∧ IsName ((StoredName.ofKey key).artifact ++ draftEnding) ∧
        List.Forall₂ (fun (s : Selected) (m : Member) => m.name = Tar.memberName s.name) selected
          members := by
  unfold gather
  cases resolved : w.files.resolve project with
  | error f => exact .inl ⟨f, w, run_bind_error (Action.run_ask_of resolved), start⟩
  | ok tree =>
      rw [run_bind_ok (Action.run_ask_of resolved)]
      rcases run_openDirectory_cases wf base old with ⟨t, made, run, opened, name⟩ | ⟨f, run⟩
      · rw [run_bind_ok run]
        dsimp only
        have stays := opens t made opened
        have drafted := run_askDraft_cases (w := { w with files := t }) opened.wellFormed opened.itself key
          artifactEnding (by decide) (by decide)
        rw [← StoredName.artifact, ← artifactPlace_eq] at drafted
        rcases drafted with ⟨run, draft⟩ | ⟨f, run⟩
        · rw [run_bind_ok run]
          cases selects : t.selection tree paths with
          | error f =>
              have run :=
                Action.run_ask_of (w := { w with files := t }) (f := (·.selection tree paths)) selects
              exact .inl ⟨f, _, run_bind_error run, stays⟩
          | ok selected =>
              have run :=
                Action.run_ask_of (w := { w with files := t }) (f := (·.selection tree paths)) selects
              rw [run_bind_ok run]
              cases packs : t.membersOf selected with
              | error f =>
                  have run :=
                    Action.run_ask_of (w := { w with files := t }) (f := (·.membersOf selected)) packs
                  exact .inl ⟨f, _, run_bind_error run, stays⟩
              | ok members =>
                  have run :=
                    Action.run_ask_of (w := { w with files := t }) (f := (·.membersOf selected)) packs
                  rw [run_bind_ok run]
                  exact .inr ⟨t, selected, members, rfl, stays, opened, name, draft,
                    names_of_membersOf packs⟩
        · exact .inl ⟨f, _, run_bind_error run, stays⟩
      · exact .inl ⟨f, w, run_bind_error run, start⟩

end Gather

namespace Paired

section Tree

variable {t t' : FileTree} (paired : Paired root t) {key : String}
include paired

theorem congr (wf : t'.WellFormed)
    (same : ∀ parts, t'.entryAt? (root ++ parts) = t.entryAt? (root ++ parts)) :
    Paired root t' := by
  have base := same []
  rw [List.append_nil] at base
  refine ⟨wf, base.trans paired.base, fun parts e proper there => ?_, fun key => ?_⟩
  · exact paired.belongs parts e proper (same parts ▸ there)
  · exact (paired.pairs key).congr (same _) (same _)

/-- The directory of a key is a directory if it is there. -/
theorem directory (key : String) : t.entryAt? (keyDirectory root key) = none ∨
    t.entryAt? (keyDirectory root key) = some .directory := by
  cases there : t.entryAt? (keyDirectory root key) with
  | none => exact .inl rfl
  | some e =>
      obtain ⟨other, ⟨-, rfl⟩ | same | same⟩ :=
        paired.belongs [(StoredName.ofKey key).directory] e (by simp) there
      · exact .inr rfl
      · have := congrArg List.length same
        simp [artifactPlace] at this
      · have := congrArg List.length same
        simp [manifestPlace] at this

theorem opened (opened : t.Opened t' (keyDirectory root key)) : Paired root t' := by
  refine ⟨opened.wellFormed, opened.above (List.prefix_append root _), fun parts e proper there => ?_,
    fun other => ?_⟩
  · rw [opened.view] at there
    split at there
    · rename_i above
      cases there
      exact belongs_of_above proper above
    · exact paired.belongs parts e proper there
  · refine (paired.pairs other).congr ?_ ?_
    · rw [artifactPlace_eq, opened.other (not_above_keyDirectory root key other _)]
    · rw [manifestPlace_eq, opened.other (not_above_keyDirectory root key other _)]

theorem artifact_ne_directory (key : String) : t.entryAt? (artifactPlace root key) ≠ some .directory := by
  cases paired.pairs key with
  | neither artifact => simp [artifact]
  | both artifact =>
      obtain ⟨m, there⟩ := artifact
      simp [there]

theorem manifest_ne_directory (key : String) : t.entryAt? (manifestPlace root key) ≠ some .directory := by
  cases paired.pairs key with
  | neither _ manifest => simp [manifest]
  | both _ manifest =>
      obtain ⟨m, there⟩ := manifest
      simp [there]

theorem ready (fits : (StoredName.ofKey key).Fits) : Ready t root key :=
  ⟨paired.wellFormed, paired.base, paired.directory key, paired.artifact_ne_directory key,
    paired.manifest_ne_directory key, fits⟩

/-- The files of a key are replaced, the manifest by one that lists what the new archive was made of. -/
theorem savedTo {members : List Member} {names : List String} {c : Content}
    (saved : SavedTo t t' root key members) (manifest : t'.HasFile (manifestPlace root key) c)
    (lists : Manifest.Lists c key names)
    (named : Names (draftPlace (artifactPlace root key)) names members) : Paired root t' := by
  have others : ∀ other name, root ++ [(StoredName.ofKey other).directory, name] ≠ artifactPlace root key →
      root ++ [(StoredName.ofKey other).directory, name] ≠ manifestPlace root key →
      t'.entryAt? (root ++ [(StoredName.ofKey other).directory, name]) =
        t.entryAt? (root ++ [(StoredName.ofKey other).directory, name]) := by
    intro other name notArtifact notManifest
    rw [saved.others _ notArtifact notManifest, if_neg]
    rw [List.append_cons]
    exact not_above_keyDirectory root key other name
  refine ⟨saved.wellFormed, ?_, fun parts e proper there => ?_, fun other => ?_⟩
  · have above : root <+: keyDirectory root key := List.prefix_append root _
    rw [saved.others root, if_pos above] <;> simp [artifactPlace, manifestPlace]
  · by_cases artifact : root ++ parts = artifactPlace root key
    · exact ⟨key, .inr (.inl artifact)⟩
    · by_cases manifest : root ++ parts = manifestPlace root key
      · exact ⟨key, .inr (.inr manifest)⟩
      · rw [saved.others _ artifact manifest] at there
        split at there
        · rename_i above
          cases there
          exact belongs_of_above proper above
        · exact paired.belongs parts e proper there
  · by_cases same : other = key
    · rw [same]
      exact .both saved.artifact manifest lists named
    · refine (paired.pairs other).congr ?_ ?_
      · exact others other _ (fun h => same (artifactPlace_injective root h))
          (artifactPlace_ne_manifestPlace root other key)
      · exact others other _ (artifactPlace_ne_manifestPlace root key other).symm
          fun h => same (manifestPlace_injective root h)

/-- What stands in the directory of a key is a file of some key. -/
theorem file_of_key {c : String} {e : Entry} (there : t.entryAt? (keyDirectory root key ++ [c]) = some e) :
    ∃ other,
      keyDirectory root key ++ [c] = artifactPlace root other ∧ c = (StoredName.ofKey other).artifact ∨
      keyDirectory root key ++ [c] = manifestPlace root other ∧ c = (StoredName.ofKey other).manifest := by
  have place : keyDirectory root key ++ [c] = root ++ [(StoredName.ofKey key).directory, c] := by
    simp [keyDirectory]
  rw [place] at there ⊢
  obtain ⟨other, ⟨same, -⟩ | same | same⟩ := paired.belongs _ e (by simp) there
  · have := congrArg List.length same
    simp [keyDirectory] at this
  · exact ⟨other, .inl ⟨same, by simpa [artifactPlace] using congrArg List.getLast? same⟩⟩
  · exact ⟨other, .inr ⟨same, by simpa [manifestPlace] using congrArg List.getLast? same⟩⟩

theorem shelf (key : String) : Shelf t (keyDirectory root key) := by
  refine ⟨fun name e there => ?_, fun name there => ?_⟩
  · obtain ⟨other, ⟨same, named⟩ | ⟨-, named⟩⟩ := paired.file_of_key there
    · obtain rfl := (String.append_left_inj _).mp named
      rw [same] at there
      cases paired.pairs other with
      | neither nothing => cases nothing.symm.trans there
      | both artifact manifest =>
          obtain ⟨m, artifact⟩ := artifact
          obtain ⟨n, manifest⟩ := manifest
          exact ⟨⟨_, m, Option.some.inj (there.symm.trans artifact)⟩,
            paired.wellFormed.named _ _ manifest _ (by simp [manifestPlace, StoredName.manifest])⟩
    · exact absurd named (artifact_ne_manifest _ _)
  · obtain ⟨other, ⟨-, named⟩ | ⟨same, -⟩⟩ := paired.file_of_key there
    · exact absurd named.symm (artifact_ne_manifest _ _)
    · exact paired.manifest_ne_directory other (same ▸ there)

/-- Archives that are taken out with their manifests leave the other pairs. -/
theorem takenOut {removed : List Stored} (taken : TakenOut t t' (keyDirectory root key) removed) :
    Paired root t' := by
  refine ⟨taken.wellFormed, taken.base.trans paired.base, fun parts e proper there => ?_, fun other => ?_⟩
  · rcases taken.or_none (root ++ parts) with same | gone
    · exact paired.belongs parts e proper (same ▸ there)
    · cases gone.symm.trans there
  · have artifact := isFileOf_artifactPlace root other
    have manifest := isFileOf_manifestPlace root other
    by_cases goes : ∃ s ∈ removed, keyDirectory root other = keyDirectory root key ∧
        s.name = (StoredName.ofKey other).name
    · obtain ⟨s, hs, directory, name⟩ := goes
      rw [directory, ← name] at artifact manifest
      exact .neither (taken.gone s hs _ (artifact s.modified)) (taken.gone s hs _ (manifest s.modified))
    · have spared {l : Location}
          (file : ∀ m, IsFileOf (keyDirectory root other) ⟨(StoredName.ofKey other).name, m⟩ l) :
          t'.entryAt? l = t.entryAt? l := by
        refine taken.others l fun s hs itself => goes ⟨s, hs, ?_⟩
        have directory := (file 0).dropLast_eq.symm.trans itself.dropLast_eq
        exact ⟨directory, itself.name_eq (directory ▸ file 0)⟩
      exact (paired.pairs other).congr (spared artifact) (spared manifest)

end Tree

section Run

variable {w w' : World σ} (paired : Paired root w.files) {key : String}
include paired

theorem run_openDirectory (key : String) :
    Paired root ((openDirectory root (StoredName.ofKey key).directory).run.run w).2.files := by
  rcases run_openDirectory_cases paired.wellFormed paired.base (paired.directory key) with
    ⟨t, -, run, opened, -⟩ | ⟨f, run⟩
  · rw [run]
    exact paired.opened opened
  · rw [run]
    exact paired

theorem run_gather (key : String) (paths : List String) (project : Location) :
    (∃ f w', (gather root key paths project).run.run w = (.error f, w') ∧ Paired root w'.files) ∨
      ∃ t selected members, (gather root key paths project).run.run w =
          (.ok (selected, members), { w with files := t }) ∧ Paired root t ∧
        w.files.Opened t (keyDirectory root key) ∧ IsName (StoredName.ofKey key).directory ∧
        IsName ((StoredName.ofKey key).artifact ++ draftEnding) ∧
        List.Forall₂ (fun (s : Selected) (m : Member) => m.name = Tar.memberName s.name) selected members :=
  run_gather_cases paired.wellFormed paired.base (paired.directory key) paired
    (fun _ _ opened => paired.opened opened) paths project

/-- Whatever a prune drops goes with its manifest. -/
theorem pruned {scope : Option String} {keep : Int} {answer : Except Fault Unit}
    (run : (prune root scope keep).run.run w = (answer, w')) : Paired root w'.files := by
  rw [prune_eq, scopeDirectory_eq] at run
  generalize scopedKey scope "" = key at run
  rcases makeDirectories_cases paired.wellFormed paired.base (paired.directory key) with
    ⟨t, made, opened, -⟩ | ⟨-, f, refused⟩
  · have stays := paired.opened opened
    obtain ⟨t', kept, removed, prunes, taken, -⟩ :=
      (stays.shelf key).run_pruneDirectory made opened.wellFormed opened.itself keep
    cases run.symm.trans prunes
    exact stays.takenOut taken
  · have stops := Action.run_onFiles (·.makeDirectories (keyDirectory root key)) w
    rw [refused] at stops
    cases run.symm.trans (run_bind_error stops)
    exact paired

/-- Where an archive and a manifest have been put in place, the names of the key are short enough. -/
theorem fits_of_puts {t : FileTree} (opened : w.files.Opened t (keyDirectory root key))
    (directory : IsName (StoredName.ofKey key).directory)
    (draft : IsName ((StoredName.ofKey key).artifact ++ draftEnding)) {artifact manifest : Content}
    {now : Int}
    (run : (do putFile (artifactPlace root key) artifact now
               putFile (manifestPlace root key) manifest now : Action σ Unit).run.run
        { w with files := t } = (.ok (), w')) : (StoredName.ofKey key).Fits := by
  obtain ⟨⟨⟩, w₁, first, second⟩ := run_ok_of_bind_ok run
  have name := (StoredName.isName_of_draft draft).1
  have free := (paired.opened opened).artifact_ne_directory key
  rw [artifactPlace_eq] at free first
  obtain ⟨t₁, put, written⟩ :=
    run_putFile (w := { w with files := t }) opened.wellFormed opened.itself name draft free artifact now
  cases first.symm.trans put
  have there : t₁.entryAt? (keyDirectory root key) = some .directory := by
    rw [written.others _ (by simp), opened.itself]
  rw [manifestPlace_eq] at second
  have manifest := isName_of_putFile (w := { w with files := t₁ }) written.wellFormed there key
    manifestEnding (by decide) (by decide) second
  exact ⟨directory.short, manifest.short⟩

/-- What is deposited is an archive with a manifest that lists what it was made of. -/
theorem deposited {t : FileTree} (opened : w.files.Opened t (keyDirectory root key))
    (directory : IsName (StoredName.ofKey key).directory)
    (draft : IsName ((StoredName.ofKey key).artifact ++ draftEnding)) {paths : List String}
    {selected : List Selected} {members : List Member}
    (named : Names (draftPlace (artifactPlace root key)) (selected.map (·.name)) members)
    (run : (deposit root key paths (selected, members)).run.run { w with files := t } = (.ok (), w')) :
    Paired root w'.files := by
  have ticked : w.files.Opened { t with clock := t.clock + 1 } (keyDirectory root key) :=
    ⟨opened.wellFormed.tick _, opened.view⟩
  have fits : (StoredName.ofKey key).Fits := by
    rw [deposit, run_bind_ok (run_modify _ _), run_bind_ok (run_get _)] at run
    exact paired.fits_of_puts ticked directory draft run
  have ready := paired.ready fits
  obtain ⟨t', done, saved, now, told⟩ := ready.run_deposit opened paths selected members
  obtain rfl := (Prod.mk.inj (run.symm.trans done)).2
  have lists := Manifest.lists_text ⟨key, paths, selected.map (·.name), now⟩
  exact paired.savedTo saved told lists named

theorem saved {paths : List String} {project : Location}
    (run : (save root key paths project).run.run w = (.ok (), w')) : Paired root w'.files := by
  rw [save_eq] at run
  obtain ⟨found, w₁, gathered, run⟩ := run_ok_of_bind_ok run
  rcases paired.run_gather key paths project with
    ⟨f, w₂, failed, -⟩ | ⟨t, selected, members, done, -, opened, directory, draft, named⟩
  · cases gathered.symm.trans failed
  · cases gathered.symm.trans done
    exact paired.deposited opened directory draft (.of_selected named) run

/-- A save that fails before it puts anything in its place leaves the pairs as they are. -/
theorem notSaved {paths : List String} {project : Location} {f : Fault}
    (gathering : ((gather root key paths project).run.run w).1 = .error f)
    (run : (save root key paths project).run.run w = (.error f, w')) : Paired root w'.files := by
  rw [save_eq] at run
  rcases paired.run_gather key paths project with ⟨f', w₁, failed, stays⟩ | ⟨t, selected, members, done, -⟩
  · rw [run_bind_error failed] at run
    cases run
    exact stays
  · rw [done] at gathering
    cases gathering

end Run

end Paired

end DirectoryStore

end Conveyor
