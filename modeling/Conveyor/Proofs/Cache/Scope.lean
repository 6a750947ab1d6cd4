import Conveyor.Job.Lifecycle
import Conveyor.Proofs.Cache.Directory

/-!
The scope of a cache and the directory of its key. A key is split at its last colon, so the directory
that a save writes to is the one of the scope just where no colon comes after the scope; digests have
none, but a literal key may.
-/

namespace Conveyor

open Conveyor.Text

theorem hexDigits_ne_colon (width n : Nat) : ∀ c ∈ hexDigits width n, c ≠ ':' := by
  have digit : ∀ n < 16, hexDigit n ≠ ':' := by decide
  induction width generalizing n with
  | zero => simp [hexDigits]
  | succ width ih =>
      intro c hc
      rcases List.mem_append.mp hc with h | h
      · exact ih _ c h
      · rw [List.mem_singleton.mp h]
        exact digit _ (Nat.mod_lt _ (by decide))

theorem colon_notMem_hexText (b : Bytes) : ':' ∉ (hexText b).toList := by
  rw [hexText, String.toList_ofList, List.mem_flatMap]
  rintro ⟨n, -, h⟩
  exact hexDigits_ne_colon 2 n.toNat ':' h rfl

theorem splitLastColon_eq_none {cs : List Char} : splitLastColon cs = none ↔ ':' ∉ cs := by
  induction cs with
  | nil => simp [splitLastColon]
  | cons c rest ih =>
      rw [splitLastColon, List.mem_cons, not_or]
      split
      · rename_i h
        have colon : ':' ∈ rest := by
          rw [splitLastColon_eq_some h]
          exact List.mem_append_right _ List.mem_cons_self
        simp [colon]
      · rename_i h
        have : ':' ∉ rest := ih.mp h
        split <;> simp_all [eq_comm]

/-- What stands before the last colon, where more text with a colon follows one. -/
theorem splitLastColon_append (before : List Char) {after scope name : List Char}
    (h : splitLastColon after = some (scope, name)) :
    splitLastColon (before ++ ':' :: after) = some (before ++ ':' :: scope, name) := by
  induction before with
  | nil => simp [splitLastColon, h]
  | cons c rest ih => simp [splitLastColon, ih]

theorem splitLastColon_append_of_notMem (before : List Char) {after : List Char}
    (h : ':' ∉ after) : splitLastColon (before ++ ':' :: after) = some (before, after) := by
  induction before with
  | nil => simp [splitLastColon, splitLastColon_eq_none.mpr h]
  | cons c rest ih => simp [splitLastColon, ih]

theorem filter_empty : ((some "").filter fun s : String => !s.isEmpty) = none := rfl

theorem filter_nonempty {s : String} (h : s ≠ "") :
    ((some s).filter fun s => !s.isEmpty) = some s := by
  simp [Option.filter, h]

/-- The key of a body in a scope, where there is one. -/
def scopedKey (scope : Option String) (body : String) : String :=
  match scope.filter fun s => !s.isEmpty with
  | some scope => scope ++ ":" ++ body
  | none => body

theorem scopedKey_plain {scope : Option String} (h : (scope.filter fun s => !s.isEmpty) = none)
    (body : String) : scopedKey scope body = body := by simp [scopedKey, h]

theorem scopedKey_scoped {scope : String} (h : scope ≠ "") (body : String) :
    scopedKey (some scope) body = scope ++ ":" ++ body := by
  simp [scopedKey, filter_nonempty h]

theorem scopeDirectory_plain {scope : Option String}
    (h : (scope.filter fun s => !s.isEmpty) = none) : scopeDirectory scope = unscoped := by
  cases scope with
  | none => rfl
  | some s =>
      by_cases empty : s = ""
      · simp [scopeDirectory, empty]
      · rw [filter_nonempty empty] at h
        cases h

theorem scopeDirectory_scoped {scope : String} (h : scope ≠ "") :
    scopeDirectory (some scope) = String.ofList (storedWord scopeMarker scope.toList) := by
  simp [scopeDirectory, h]

theorem scoped_or_plain (scope : Option String) :
    (scope.filter fun s => !s.isEmpty) = none ∨ ∃ s, s ≠ "" ∧ scope = some s := by
  cases scope with
  | none => exact .inl rfl
  | some s =>
      by_cases h : s = ""
      · exact .inl (h ▸ filter_empty)
      · exact .inr ⟨s, h, rfl⟩

/-- Distinct scopes have distinct directories. -/
theorem scopeDirectory_injective {scope other : String} (h : scope ≠ "") (h' : other ≠ "")
    (same : scopeDirectory (some scope) = scopeDirectory (some other)) : scope = other := by
  rw [scopeDirectory_scoped h, scopeDirectory_scoped h'] at same
  exact String.toList_injective
    (isMarker_scopeMarker.storedWord_injective (String.ofList_injective same))

/-- A key is kept in the directory of its scope just where no colon comes after the scope. -/
theorem directory_ofKey_scopedKey (scope : Option String) (body : String) :
    (StoredName.ofKey (scopedKey scope body)).directory = scopeDirectory scope ↔
      ':' ∉ body.toList := by
  rcases scoped_or_plain scope with h | ⟨s, h, rfl⟩
  · rw [scopedKey_plain h, scopeDirectory_plain h, ← splitLastColon_eq_none]
    match split : splitLastColon body.toList with
    | none => simp [StoredName.directory_ofKey_of_none split]
    | some (before, _) =>
        rw [StoredName.directory_ofKey_of_scope split]
        simpa using (StoredName.unscoped_ne_storedWord before).symm
  · rw [scopedKey_scoped h, scopeDirectory_scoped h, ← splitLastColon_eq_none]
    have text : (s ++ ":" ++ body).toList = s.toList ++ ':' :: body.toList := by
      simp [String.toList_append]
    match split : splitLastColon body.toList with
    | none =>
        rw [StoredName.directory_ofKey_of_scope
          (text ▸ splitLastColon_append_of_notMem _ (splitLastColon_eq_none.mp split))]
        simp
    | some (before, _) =>
        rw [StoredName.directory_ofKey_of_scope (text ▸ splitLastColon_append s.toList split)]
        -- the stored scope is longer than the scope itself
        have longer : s.toList ++ ':' :: before ≠ s.toList := by simp
        refine iff_of_false (fun same => longer ?_) (by simp)
        exact isMarker_scopeMarker.storedWord_injective (String.ofList_injective same)

theorem scopeDirectory_eq (scope : Option String) :
    scopeDirectory scope = (StoredName.ofKey (scopedKey scope "")).directory :=
  ((directory_ofKey_scopedKey scope "").mpr (by simp)).symm

namespace CacheSpec

/-- No colon stands in the literal key, where the key is a literal. -/
def ColonFree (c : CacheSpec) : Prop := c.files = [] → ∀ key ∈ c.key, ':' ∉ key.toList

theorem resolveKey_ok {c : CacheSpec} {t : FileTree} {project : Location} {key : String}
    (h : c.resolveKey t project = .ok key) :
    ∃ body, c.keyBody t project = .ok body ∧ key = scopedKey c.scope body := by
  unfold resolveKey at h
  obtain ⟨body, hbody, h⟩ := ok_of_bind_ok h
  refine ⟨body, hbody, ?_⟩
  split at h <;> rename_i hscope <;> cases h <;> simp [scopedKey, hscope]

theorem colonFree_iff {c : CacheSpec} {t : FileTree} {project : Location} {body : String}
    (h : c.keyBody t project = .ok body) : ':' ∉ body.toList ↔ c.ColonFree := by
  unfold keyBody at h
  by_cases files : c.files = []
  · rw [if_pos (by simp [files])] at h
    cases h
    cases hkey : c.key with
    | none => simp [ColonFree, files, hkey, defaultKey]
    | some key =>
        by_cases empty : key = ""
        · subst empty
          simp [ColonFree, hkey, filter_empty, defaultKey]
        · simp [ColonFree, files, hkey, filter_nonempty empty]
  · rw [if_neg (by simp [files])] at h
    obtain ⟨s, -, h⟩ := ok_of_bind_ok h
    cases h
    simp [ColonFree, files, colon_notMem_hexText]

theorem directory_ofKey {c : CacheSpec} {t : FileTree} {project : Location} {key : String}
    (h : c.resolveKey t project = .ok key) :
    (StoredName.ofKey key).directory = scopeDirectory c.scope ↔ c.ColonFree := by
  obtain ⟨body, hbody, rfl⟩ := resolveKey_ok h
  rw [directory_ofKey_scopedKey, colonFree_iff hbody]

end CacheSpec

namespace DirectoryStore

variable {σ : Type}

/-- Prunes what a directory of a store holds, in whatever scope. -/
def pruneDirectory (directory : Location) (keep : Int) : Action σ Unit := do
  Action.onFiles (·.makeDirectories directory)
  let found ← Action.ask (storedIn · directory)
  let newestFirst := found.mergeSort fun a b => b.modified ≤ a.modified
  removeStored directory (dropKept keep newestFirst)

theorem prune_eq (root : Location) (scope : Option String) (keep : Int) :
    (prune root scope keep : Action σ Unit) =
      pruneDirectory (root ++ [scopeDirectory scope]) keep := by
  simp only [prune, openDirectory, pruneDirectory, bind_assoc, pure_bind]

end DirectoryStore

namespace JobSetting

open DirectoryStore

variable {σ : Type}

/-- What a job prunes where it keeps a limited number: one directory, told by the scope alone. -/
theorem prune_directory {g : JobSetting σ} {root : Location} {keep : Int}
    (store : g.store = DirectoryStore.store root) (limited : g.keep = some keep) (h : keep ≠ 0)
    (c : CacheSpec) :
    g.prune c = JobStep.ofAction (pruneDirectory (root ++ [scopeDirectory c.scope]) keep) := by
  simp [prune, store, limited, h, DirectoryStore.store, prune_eq]

end JobSetting

namespace CacheSpec

open DirectoryStore

/-- The directory that the scope names is the one in which the key is saved just where no literal key
with a colon is in use. There what a job prunes is what its save wrote to, and caches with distinct
scopes share neither a key nor a directory. -/
theorem save_and_prune_agree {c : CacheSpec} {t : FileTree} {project : Location} {key : String}
    (h : c.resolveKey t project = .ok key) :
    ((StoredName.ofKey key).directory = scopeDirectory c.scope ↔ c.ColonFree) ∧
    (∀ root : Location, root ++ [scopeDirectory c.scope] = (artifactPlace root key).dropLast ∧
      root ++ [scopeDirectory c.scope] = (manifestPlace root key).dropLast ↔ c.ColonFree) ∧
    (∀ {σ : Type} (g : JobSetting σ) (root : Location) (keep : Int),
      g.store = store root → g.keep = some keep → keep ≠ 0 → c.ColonFree →
      g.prune c = JobStep.ofAction (pruneDirectory (artifactPlace root key).dropLast keep)) ∧
    ∀ (c' : CacheSpec) (t' : FileTree) (project' : Location) (key' scope scope' : String),
      c'.resolveKey t' project' = .ok key' → c.scope = some scope → c'.scope = some scope' →
      scope ≠ "" → scope' ≠ "" → scope ≠ scope' → c.ColonFree → c'.ColonFree →
      key ≠ key' ∧ (StoredName.ofKey key).directory ≠ (StoredName.ofKey key').directory := by
  have agrees := directory_ofKey h
  have places (root : Location) : (artifactPlace root key).dropLast = keyDirectory root key ∧
      (manifestPlace root key).dropLast = keyDirectory root key := by
    rw [artifactPlace_eq, manifestPlace_eq, List.dropLast_concat, List.dropLast_concat]
    exact ⟨rfl, rfl⟩
  refine ⟨agrees, fun root => ?_, fun g root keep hstore hkeep hne free => ?_, ?_⟩
  · rw [(places root).1, (places root).2, and_self, ← agrees, keyDirectory, eq_comm]
    simp
  · rw [JobSetting.prune_directory hstore hkeep hne, (places root).1, keyDirectory,
      agrees.mpr free]
  · intro c' t' project' key' scope scope' h' hscope hscope' hne hne' different free free'
    have directories : (StoredName.ofKey key).directory ≠ (StoredName.ofKey key').directory := by
      rw [agrees.mpr free, (directory_ofKey h').mpr free', hscope, hscope']
      exact fun same => different (scopeDirectory_injective hne hne' same)
    exact ⟨fun same => directories (by rw [same]), directories⟩

/-- Scopes may hold colons as they like. -/
theorem save_and_prune_agree_in_colons :
    (CacheSpec.mk [] (some "a:b") [] .onSuccess none).resolveKey {} ["p"] = .ok "a:b:default" ∧
    (CacheSpec.mk [] (some "a") [] .onSuccess (some "b")).resolveKey {} ["p"] = .ok "a:b" ∧
    (StoredName.ofKey "a:b:default").directory = scopeDirectory (some "a:b") ∧
    "a:b:default" ≠ "a:b" ∧
    (StoredName.ofKey "a:b:default").directory ≠ (StoredName.ofKey "a:b").directory := by
  have h : (CacheSpec.mk [] (some "a:b") [] .onSuccess none).resolveKey {} ["p"] =
      .ok "a:b:default" := rfl
  have h' : (CacheSpec.mk [] (some "a") [] .onSuccess (some "b")).resolveKey {} ["p"] =
      .ok "a:b" := rfl
  obtain ⟨agrees, -, -, apart⟩ := save_and_prune_agree h
  exact ⟨h, h', agrees.mpr (by simp [ColonFree]),
    apart _ _ _ _ _ _ h' rfl rfl (by decide) (by decide) (by decide)
      (by simp [ColonFree]) (by simp [ColonFree])⟩

/-- A literal key with a colon is kept elsewhere than its scope says, and may be the key of a cache in
another scope. -/
theorem save_and_prune_disagree_at_colon :
    (¬ ∀ (c : CacheSpec) (t : FileTree) (project : Location) (key : String),
      c.resolveKey t project = .ok key →
      (StoredName.ofKey key).directory = scopeDirectory c.scope) ∧
    ¬ ∀ (c c' : CacheSpec) (t : FileTree) (project : Location) (key key' scope scope' : String),
      c.resolveKey t project = .ok key → c'.resolveKey t project = .ok key' →
      c.scope = some scope → c'.scope = some scope' → scope ≠ "" → scope' ≠ "" →
      scope ≠ scope' → key ≠ key' := by
  constructor
  · intro agree
    have := agree ⟨[], none, [], .onSuccess, some "a:b"⟩ {} ["p"] "a:b" rfl
    have colon : splitLastColon "a:b".toList = some (['a'], ['b']) := by decide
    rw [StoredName.directory_ofKey_of_scope colon] at this
    exact absurd this.symm (StoredName.unscoped_ne_storedWord ['a'])
  · intro distinct
    exact distinct ⟨[], some "a", [], .onSuccess, some "b:c"⟩
      ⟨[], some "a:b", [], .onSuccess, some "c"⟩ {} ["p"] "a:b:c" "a:b:c" "a" "a:b"
      rfl rfl rfl rfl (by decide) (by decide) (by decide) rfl

end CacheSpec

end Conveyor
