import Conveyor.Cache.Directory
import Conveyor.Proofs.Files.Tree
import Conveyor.Proofs.Text.Spelling

/-!
The names under which a store keeps a key determine the key, and each is a single component of a
path. A plain word and a spelled one never meet, since the markers hold a character that no plain
word has; a key without a colon never meets one with an empty scope for the same reason.
-/

namespace Conveyor

open Conveyor.Text

/-- The characters of stored names. -/
def IsStoredChar (c : Char) : Prop := c.isAlphanum ∨ c = '-' ∨ c = '_' ∨ c = '~'

theorem IsStoredChar.ne_slash {c : Char} (h : IsStoredChar c) : c ≠ '/' := by
  rintro rfl
  revert h
  simp [IsStoredChar, show ('/').isAlphanum = false from rfl]

theorem IsStoredChar.ne_dot {c : Char} (h : IsStoredChar c) : c ≠ '.' := by
  rintro rfl
  revert h
  simp [IsStoredChar, show ('.').isAlphanum = false from rfl]

theorem IsStoredChar.ne_nul {c : Char} (h : IsStoredChar c) : c ≠ '\x00' := by
  rintro rfl
  revert h
  simp [IsStoredChar, show ('\x00').isAlphanum = false from rfl]

theorem isComponent_of_head {c : Char} {cs : List Char} (hdot : c ≠ '.')
    (hslash : '/' ∉ c :: cs) : IsComponent (String.ofList (c :: cs)) := by
  refine ⟨?_, ?_, ?_, by rwa [String.toList_ofList]⟩
  · simp [String.ofList_eq_empty_iff]
  · intro h
    have := congrArg String.toList h
    simp [hdot] at this
  · intro h
    have := congrArg String.toList h
    simp [hdot] at this

theorem isPlainWord_iff (cs : List Char) :
    isPlainWord cs = true ↔ cs ≠ [] ∧ ∀ c ∈ cs, c.isAlphanum := by
  simp [isPlainWord]

/-- A marker that makes spelled words differ from plain ones. -/
structure IsMarker (marker : List Char) : Prop where
  stored : ∀ c ∈ marker, IsStoredChar c
  spelled : ∃ c ∈ marker, c.isAlphanum = false

theorem isMarker_scopeMarker : IsMarker scopeMarker :=
  ⟨by simp [scopeMarker, IsStoredChar], '~', by simp [scopeMarker], rfl⟩

theorem isMarker_nameMarker : IsMarker nameMarker :=
  ⟨by simp [nameMarker, IsStoredChar, show ('k').isAlphanum = true from rfl],
    '-', by simp [nameMarker], rfl⟩

theorem storedWord_plain {marker cs : List Char} (h : isPlainWord cs = true) :
    storedWord marker cs = cs := by simp [storedWord, h]

theorem storedWord_spelled {marker cs : List Char} (h : isPlainWord cs = false) :
    storedWord marker cs = marker ++ base64 (encode (String.ofList cs)) := by simp [storedWord, h]

theorem IsMarker.not_plain {marker : List Char} (hm : IsMarker marker) (tail : List Char) :
    isPlainWord (marker ++ tail) = false := by
  obtain ⟨c, hc, hspelled⟩ := hm.spelled
  rw [Bool.eq_false_iff, Ne, isPlainWord_iff]
  rintro ⟨-, hall⟩
  rw [hall c (List.mem_append_left _ hc)] at hspelled
  cases hspelled

theorem IsMarker.storedWord_injective {marker : List Char} (hm : IsMarker marker) :
    Function.Injective (storedWord marker) := by
  intro cs ds h
  cases hc : isPlainWord cs <;> cases hd : isPlainWord ds
  · rw [storedWord_spelled hc, storedWord_spelled hd] at h
    exact String.ofList_injective
      (encode_injective (base64_injective (List.append_cancel_left h)))
  · rw [storedWord_spelled hc, storedWord_plain hd] at h
    rw [← h, hm.not_plain] at hd
    cases hd
  · rw [storedWord_plain hc, storedWord_spelled hd] at h
    rw [h, hm.not_plain] at hc
    cases hc
  · rwa [storedWord_plain hc, storedWord_plain hd] at h

theorem IsMarker.storedWord_chars {marker : List Char} (hm : IsMarker marker) (cs : List Char) :
    ∀ c ∈ storedWord marker cs, IsStoredChar c := by
  intro c hc
  cases hplain : isPlainWord cs with
  | true =>
      rw [storedWord_plain hplain] at hc
      exact .inl (((isPlainWord_iff cs).mp hplain).2 c hc)
  | false =>
      rw [storedWord_spelled hplain] at hc
      rcases List.mem_append.mp hc with h | h
      · exact hm.stored c h
      · rcases base64_chars _ c h with h | h | h
        · exact .inl h
        · exact .inr (.inl h)
        · exact .inr (.inr (.inl h))

theorem IsMarker.storedWord_ne_nil {marker : List Char} (hm : IsMarker marker) (cs : List Char) :
    storedWord marker cs ≠ [] := by
  cases hplain : isPlainWord cs with
  | true =>
      rw [storedWord_plain hplain]
      exact ((isPlainWord_iff cs).mp hplain).1
  | false =>
      rw [storedWord_spelled hplain]
      obtain ⟨c, hc, -⟩ := hm.spelled
      exact List.ne_nil_of_mem (List.mem_append_left _ hc)

/-- A stored word is a component of a path, whatever ending it is given. -/
theorem IsMarker.isComponent {marker : List Char} (hm : IsMarker marker) (cs : List Char)
    (ending : String) (hending : '/' ∉ ending.toList) :
    IsComponent (String.ofList (storedWord marker cs) ++ ending) := by
  have chars := hm.storedWord_chars cs
  obtain ⟨c, rest, hword⟩ := List.exists_cons_of_ne_nil (hm.storedWord_ne_nil cs)
  have text : String.ofList (storedWord marker cs) ++ ending =
      String.ofList (c :: (rest ++ ending.toList)) := by
    apply String.toList_injective
    simp [hword]
  rw [text]
  rw [hword] at chars
  apply isComponent_of_head (chars c (by simp)).ne_dot
  rw [← List.cons_append, List.mem_append, not_or]
  exact ⟨fun h => (chars _ h).ne_slash rfl, hending⟩

/-- The last colon splits a text into its scope and its name. -/
theorem splitLastColon_eq_some {cs before after : List Char}
    (h : splitLastColon cs = some (before, after)) : cs = before ++ ':' :: after := by
  induction cs generalizing before after with
  | nil => simp [splitLastColon] at h
  | cons c rest ih =>
      rw [splitLastColon] at h
      split at h
      · rename_i b a hrest
        cases h
        rw [ih hrest, List.cons_append]
      · split at h
        · rename_i hc
          cases h
          rw [hc, List.nil_append]
        · cases h

namespace StoredName

theorem directory_ofKey_of_scope {key : String} {scope name : List Char}
    (h : splitLastColon key.toList = some (scope, name)) :
    (ofKey key).directory = String.ofList (storedWord scopeMarker scope) := by
  simp [ofKey, h]

theorem directory_ofKey_of_none {key : String} (h : splitLastColon key.toList = none) :
    (ofKey key).directory = unscoped := by
  simp [ofKey, h]

theorem name_ofKey (key : String) : ∃ cs, (ofKey key).name = String.ofList (storedWord nameMarker cs) ∧
    cs = ((splitLastColon key.toList).map (·.2)).getD key.toList := by
  unfold ofKey
  split <;> exact ⟨_, rfl, by simp_all⟩

/-- The directory of keys without a scope is neither a plain word nor spelled. -/
theorem unscoped_ne_storedWord (cs : List Char) :
    unscoped ≠ String.ofList (storedWord scopeMarker cs) := by
  intro h
  have hword : storedWord scopeMarker cs = ['_'] := by
    rw [← String.toList_ofList (l := storedWord scopeMarker cs), ← h]
    rfl
  cases hplain : isPlainWord cs with
  | true =>
      rw [storedWord_plain hplain] at hword
      rw [hword] at hplain
      cases hplain
  | false =>
      rw [storedWord_spelled hplain, scopeMarker, List.cons_append] at hword
      exact absurd (List.cons.inj hword).1 (by decide)

theorem ofKey_injective : Function.Injective ofKey := by
  intro key other h
  obtain ⟨cs, hname, hcs⟩ := name_ofKey key
  obtain ⟨ds, hname', hds⟩ := name_ofKey other
  have names : cs = ds := isMarker_nameMarker.storedWord_injective
    (String.ofList_injective (by rw [← hname, ← hname', h]))
  have directories := congrArg directory h
  apply String.toList_injective
  match hkey : splitLastColon key.toList, hother : splitLastColon other.toList with
  | some (scope, name), some (scope', name') =>
      rw [directory_ofKey_of_scope hkey, directory_ofKey_of_scope hother] at directories
      have scopes := isMarker_scopeMarker.storedWord_injective (String.ofList_injective directories)
      have hnames : name = name' := by simpa [hkey, hother, hcs, hds] using names
      rw [splitLastColon_eq_some hkey, splitLastColon_eq_some hother, scopes, hnames]
  | some (scope, _), none =>
      rw [directory_ofKey_of_scope hkey, directory_ofKey_of_none hother] at directories
      exact absurd directories.symm (unscoped_ne_storedWord scope)
  | none, some (scope, _) =>
      rw [directory_ofKey_of_none hkey, directory_ofKey_of_scope hother] at directories
      exact absurd directories (unscoped_ne_storedWord scope)
  | none, none => simpa [hkey, hother, hcs, hds] using names

theorem isComponent_directory (key : String) : IsComponent (ofKey key).directory := by
  match hkey : splitLastColon key.toList with
  | some (scope, _) =>
      rw [directory_ofKey_of_scope hkey]
      simpa using isMarker_scopeMarker.isComponent scope "" (by simp)
  | none =>
      rw [directory_ofKey_of_none hkey]
      exact ⟨by decide, by decide, by decide, by decide⟩

/-- The name of a key, alone or with an ending. -/
theorem isComponent_name (key ending : String) (hending : '/' ∉ ending.toList) :
    IsComponent ((ofKey key).name ++ ending) := by
  obtain ⟨cs, hname, -⟩ := name_ofKey key
  rw [hname]
  exact isMarker_nameMarker.isComponent cs ending hending

theorem directory_chars (key : String) : ∀ c ∈ (ofKey key).directory.toList, IsStoredChar c := by
  match hkey : splitLastColon key.toList with
  | some (scope, _) =>
      rw [directory_ofKey_of_scope hkey, String.toList_ofList]
      exact isMarker_scopeMarker.storedWord_chars scope
  | none =>
      rw [directory_ofKey_of_none hkey]
      intro c hc
      exact .inr (.inr (.inl (List.mem_singleton.mp hc)))

theorem name_chars (key : String) : ∀ c ∈ (ofKey key).name.toList, IsStoredChar c := by
  obtain ⟨cs, hname, -⟩ := name_ofKey key
  rw [hname, String.toList_ofList]
  exact isMarker_nameMarker.storedWord_chars cs

/-- The name of a key with an ending, unless it is too long. -/
theorem isName_of_short (key : String) {ending : String} (hslash : '/' ∉ ending.toList)
    (hnul : '\x00' ∉ ending.toList)
    (short : ((ofKey key).name ++ ending).utf8ByteSize ≤ FileTree.nameLimit) :
    IsName ((ofKey key).name ++ ending) := by
  refine ⟨isComponent_name key ending hslash, ?_, short⟩
  rw [String.toList_append, List.mem_append, not_or]
  exact ⟨fun h => (name_chars key _ h).ne_nul rfl, hnul⟩

/-- Where the draft of an archive has a name, so have the archive and its manifest, which have shorter
ones. -/
theorem isName_of_draft {key : String}
    (draft : IsName ((ofKey key).artifact ++ DirectoryStore.draftEnding)) :
    IsName (ofKey key).artifact ∧ IsName (ofKey key).manifest := by
  have short := draft.short
  rw [artifact, String.append_assoc, String.utf8ByteSize_append] at short
  have shorter : artifactEnding.utf8ByteSize ≤ (artifactEnding ++ DirectoryStore.draftEnding).utf8ByteSize ∧
      manifestEnding.utf8ByteSize ≤ (artifactEnding ++ DirectoryStore.draftEnding).utf8ByteSize := by
    decide
  exact ⟨isName_of_short key (by decide) (by decide) (by rw [String.utf8ByteSize_append]; omega),
    isName_of_short key (by decide) (by decide) (by rw [String.utf8ByteSize_append]; omega)⟩

/-- The file system accepts the names of the files of a key, also while they are written. -/
structure Fits (n : StoredName) : Prop where
  directory : n.directory.utf8ByteSize ≤ FileTree.nameLimit
  manifest : (n.manifest ++ DirectoryStore.draftEnding).utf8ByteSize ≤ FileTree.nameLimit

section Fits

variable {key : String} (fits : (ofKey key).Fits)
include fits

theorem Fits.isName_directory : IsName (ofKey key).directory :=
  ⟨isComponent_directory key, fun h => (directory_chars key _ h).ne_nul rfl, fits.directory⟩

/-- The name of a key with an ending that is no longer than the ones the store uses. -/
theorem Fits.isName_name {ending : String} (hslash : '/' ∉ ending.toList)
    (hnul : '\x00' ∉ ending.toList)
    (short : ending.utf8ByteSize ≤ (manifestEnding ++ DirectoryStore.draftEnding).utf8ByteSize) :
    IsName ((ofKey key).name ++ ending) := by
  have limit := fits.manifest
  rw [StoredName.manifest, String.append_assoc, String.utf8ByteSize_append] at limit
  refine isName_of_short key hslash hnul ?_
  rw [String.utf8ByteSize_append]
  omega

theorem Fits.isName_artifact :
    IsName (ofKey key).artifact ∧ IsName ((ofKey key).artifact ++ DirectoryStore.draftEnding) := by
  refine ⟨fits.isName_name (by decide) (by decide) (by decide), ?_⟩
  rw [StoredName.artifact, String.append_assoc]
  exact fits.isName_name (by decide) (by decide) (by decide)

theorem Fits.isName_manifest :
    IsName (ofKey key).manifest ∧ IsName ((ofKey key).manifest ++ DirectoryStore.draftEnding) := by
  refine ⟨fits.isName_name (by decide) (by decide) (by decide), ?_⟩
  rw [StoredName.manifest, String.append_assoc]
  exact fits.isName_name (by decide) (by decide) (by decide)

end Fits

theorem ext_name {key other : String} (ending : String)
    (hdirectory : (ofKey key).directory = (ofKey other).directory)
    (hname : (ofKey key).name ++ ending = (ofKey other).name ++ ending) : key = other := by
  apply ofKey_injective
  have hname := congrArg String.toList hname
  rw [String.toList_append, String.toList_append] at hname
  exact StoredName.ext hdirectory (String.toList_injective (List.append_cancel_right hname))

end StoredName

namespace DirectoryStore

theorem artifactPlace_injective (root : Location) : Function.Injective (artifactPlace root) := by
  intro key other h
  have hcomponents := List.append_cancel_left h
  simp only [List.cons.injEq, and_true] at hcomponents
  exact StoredName.ext_name artifactEnding hcomponents.1 hcomponents.2

theorem manifestPlace_injective (root : Location) : Function.Injective (manifestPlace root) := by
  intro key other h
  have hcomponents := List.append_cancel_left h
  simp only [List.cons.injEq, and_true] at hcomponents
  exact StoredName.ext_name manifestEnding hcomponents.1 hcomponents.2

theorem artifact_ne_manifest (name other : String) : name ++ artifactEnding ≠ other ++ manifestEnding := by
  intro h
  have last := congrArg (fun s => s.toList.getLast?) h
  simp [artifactEnding, manifestEnding] at last

theorem artifactPlace_ne_manifestPlace (root : Location) (key other : String) :
    artifactPlace root key ≠ manifestPlace root other := by
  intro h
  have hcomponents := List.append_cancel_left h
  simp only [List.cons.injEq, and_true] at hcomponents
  exact artifact_ne_manifest _ _ hcomponents.2

theorem isComponent_artifact (key : String) : IsComponent (StoredName.ofKey key).artifact :=
  StoredName.isComponent_name key artifactEnding (by decide)

theorem isComponent_manifest (key : String) : IsComponent (StoredName.ofKey key).manifest :=
  StoredName.isComponent_name key manifestEnding (by decide)

/-- Distinct keys have distinct stored names, hence distinct files, and the two files of a key stand
exactly two levels below the store. -/
theorem stored_names_reversible_and_confined :
    (∀ key other, key ≠ other →
      StoredName.ofKey key ≠ StoredName.ofKey other ∧
      ∀ root, artifactPlace root key ≠ artifactPlace root other ∧
        manifestPlace root key ≠ manifestPlace root other) ∧
    (∀ key other root, artifactPlace root key ≠ manifestPlace root other) ∧
    ∀ key, IsComponent (StoredName.ofKey key).directory ∧ IsComponent (StoredName.ofKey key).name ∧
      ∀ root, ∃ artifact manifest, IsComponent artifact ∧ IsComponent manifest ∧
        artifactPlace root key = root ++ [(StoredName.ofKey key).directory, artifact] ∧
        manifestPlace root key = root ++ [(StoredName.ofKey key).directory, manifest] := by
  refine ⟨fun key other h => ⟨fun heq => h (StoredName.ofKey_injective heq), fun root => ?_⟩,
    fun key other root => artifactPlace_ne_manifestPlace root key other, fun key => ?_⟩
  · exact ⟨fun heq => h (artifactPlace_injective root heq),
      fun heq => h (manifestPlace_injective root heq)⟩
  · refine ⟨StoredName.isComponent_directory key, ?_, fun root => ?_⟩
    · simpa using StoredName.isComponent_name key "" (by simp)
    · exact ⟨_, _, isComponent_artifact key, isComponent_manifest key, rfl, rfl⟩

/-- A key whose scope looks like the directory of keys without one. -/
theorem stored_names_of_look_alikes :
    "_:h" ≠ ":h" ∧ StoredName.ofKey "_:h" ≠ StoredName.ofKey ":h" ∧
      artifactPlace ["store"] "_:h" ≠ artifactPlace ["store"] ":h" := by
  have different : "_:h" ≠ ":h" := by decide
  obtain ⟨names, files⟩ := stored_names_reversible_and_confined.1 "_:h" ":h" different
  exact ⟨different, names, (files ["store"]).1⟩

end DirectoryStore

end Conveyor
