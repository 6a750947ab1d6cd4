import Conveyor.Proofs.Cache.Packing
import Conveyor.Proofs.Cache.Scope
import Conveyor.Proofs.Digest.Sha256
import Mathlib.Data.List.Forall2

/-!
Keys of listed files. Such a key is the hash of the bytes of the files in the order of the list, and a
list with a path that is no regular file has none; nothing else in the tree has an influence, and neither
has what the cache is told beside the list and the scope.
-/

namespace Conveyor

open Conveyor.Sha256 Conveyor.Text

namespace FileTree

/-- A path leads, through links, to a regular file with some bytes. -/
def Reads (t : FileTree) (l : Location) (bytes : Bytes) : Prop :=
  (∀ name ∈ l, '\x00' ∉ name.toList) ∧
    ∃ real content, t.follow l = .ok real ∧ t.HasFile real content ∧ content.toBytes = bytes

def IsRegular (t : FileTree) (l : Location) : Prop := ∃ bytes, t.Reads l bytes

/-- The system does not look a path up, since a name that comes up is too long for it. -/
def IsTooLong (t : FileTree) (l : Location) : Prop :=
  (∀ name ∈ l, '\x00' ∉ name.toList) ∧ t.follow l = .error .nameTooLong

variable {t : FileTree} {l : Location}

theorem any_nul_eq_false_iff :
    (l.any fun c => c.toList.contains '\x00') = false ↔ ∀ name ∈ l, '\x00' ∉ name.toList := by
  simp

theorem Reads.unique {bytes bytes' : Bytes} (h : t.Reads l bytes) (h' : t.Reads l bytes') :
    bytes = bytes' := by
  obtain ⟨-, real, content, leads, there, rfl⟩ := h
  obtain ⟨-, real', content', leads', there', rfl⟩ := h'
  obtain rfl := Except.ok.inj (leads.symm.trans leads')
  rw [there.unique there']

theorem IsTooLong.not_isRegular (h : t.IsTooLong l) : ¬ t.IsRegular l := by
  rintro ⟨_, -, real, _, leads, -, -⟩
  rw [h.2] at leads
  cases leads

theorem IsRegular.isFile (h : t.IsRegular l) : t.isFile l = .ok true := by
  obtain ⟨_, plain, real, content, leads, ⟨m, there⟩, -⟩ := h
  have found : t.stat l = .ok (.file content m) := by
    simp only [stat, leads, bind, Except.bind, there]
    rfl
  rw [FileTree.isFile, ask, any_nul_eq_false_iff.mpr plain, found]
  rfl

theorem IsTooLong.isFile (h : t.IsTooLong l) :
    t.isFile l = .error (.file ⟨.nameTooLong, Location.text l⟩) := by
  have refused : t.stat l = .error .nameTooLong := by
    rw [stat, h.2]
    rfl
  rw [FileTree.isFile, ask, any_nul_eq_false_iff.mpr h.1, refused]
  rfl

theorem reads_of_isFile (h : t.isFile l = .ok true) :
    ∃ content, t.readFile l = .ok content ∧ t.Reads l content.toBytes := by
  obtain ⟨real, content, leads, -, there, read⟩ := isFile_eq_true h
  obtain ⟨noNul, -⟩ := ask_eq_true h
  exact ⟨content, read, any_nul_eq_false_iff.mp noNul, real, content, leads, there, rfl⟩

theorem isTooLong_of_isFile {f : Fault} (h : t.isFile l = .error f) : t.IsTooLong l := by
  rw [FileTree.isFile, ask] at h
  split at h
  · cases h
  · rename_i noNul
    split at h
    · cases h
    · rename_i refused
      refine ⟨any_nul_eq_false_iff.mp (Bool.eq_false_iff.mpr noNul), ?_⟩
      rcases error_of_bind_error refused with leads | ⟨real, -, missing⟩
      · exact leads
      · split at missing <;> cases missing
    · cases h

end FileTree

/-- The place that a listed path names. -/
def listedPlace (project : Location) (name : String) : Location :=
  Location.ofPath project (Path.ofText name)

/-- A listed name by itself leads nowhere if it is longer than names may be. -/
theorem isTooLong_listedPlace {t : FileTree} {name : String} (component : IsComponent name)
    (noNul : '\x00' ∉ name.toList) (long : FileTree.nameLimit < name.utf8ByteSize) :
    t.IsTooLong (listedPlace [] name) := by
  have place : listedPlace [] name = [name] := by
    have single : Path.ofText name = ⟨"", [name]⟩ := by
      simpa using Path.ofText_intercalate (List.cons_ne_nil name []) (by simpa using component)
    rw [listedPlace, single]
    rfl
  obtain ⟨hempty, hdot, hdots, -⟩ := component
  refine ⟨by simpa [place] using noNul, ?_⟩
  rw [place, FileTree.follow, FileTree.locate, if_neg (by simp [FileTree.isDirectoryAt, FileTree.entryAt?]),
    if_neg (by simp [hempty, hdot]), if_neg hdots, if_pos long]

/-- The first path of a list that leads to no regular file. -/
def FirstUnread (t : FileTree) (project : Location) (files : List String) (name : String) : Prop :=
  ∃ before after, files = before ++ name :: after ∧
    (∀ n ∈ before, t.IsRegular (listedPlace project n)) ∧ ¬ t.IsRegular (listedPlace project name)

/-- The contents of the listed files, in the order of the list. -/
def ReadsAll (t : FileTree) (project : Location) : List String → List Bytes → Prop :=
  List.Forall₂ fun name => t.Reads (listedPlace project name)

/-- How a list is refused at a path that leads to no regular file. -/
inductive Refuses (t : FileTree) (project : Location) (name : String) : JobFailure → Prop
  | missing (asked : ¬ t.IsTooLong (listedPlace project name)) :
      Refuses t project name (.error (.missingCacheInput name none))
  | tooLong (h : t.IsTooLong (listedPlace project name)) :
      Refuses t project name (.fault (.file ⟨.nameTooLong, Location.text (listedPlace project name)⟩))

variable {t : FileTree} {project : Location} {files : List String} {name : String}

theorem Refuses.unique {f f' : JobFailure} (h : Refuses t project name f)
    (h' : Refuses t project name f') : f = f' := by
  cases h with
  | missing asked =>
      cases h' with
      | missing _ => rfl
      | tooLong tooLong => exact absurd tooLong asked
  | tooLong tooLong =>
      cases h' with
      | missing asked => exact absurd tooLong asked
      | tooLong _ => rfl

theorem FirstUnread.head (unread : ¬ t.IsRegular (listedPlace project name)) :
    FirstUnread t project (name :: files) name :=
  ⟨[], files, rfl, by simp, unread⟩

theorem FirstUnread.cons {first : String} (regular : t.IsRegular (listedPlace project first))
    (h : FirstUnread t project files name) : FirstUnread t project (first :: files) name := by
  obtain ⟨before, after, rfl, all, unread⟩ := h
  exact ⟨first :: before, after, rfl, List.forall_mem_cons.mpr ⟨regular, all⟩, unread⟩

theorem firstUnread_cons {first : String} : FirstUnread t project (first :: files) name ↔
    (¬ t.IsRegular (listedPlace project first) ∧ name = first) ∨
      (t.IsRegular (listedPlace project first) ∧ FirstUnread t project files name) := by
  constructor
  · rintro ⟨before, after, split, all, unread⟩
    cases before with
    | nil =>
        cases split
        exact .inl ⟨unread, rfl⟩
    | cons other before =>
        cases split
        rw [List.forall_mem_cons] at all
        exact .inr ⟨all.1, before, after, rfl, all.2, unread⟩
  · rintro (⟨unread, rfl⟩ | ⟨regular, later⟩)
    · exact .head unread
    · exact later.cons regular

theorem FirstUnread.unique {other : String} (h : FirstUnread t project files name)
    (h' : FirstUnread t project files other) : name = other := by
  induction files with
  | nil => obtain ⟨before, after, split, -⟩ := h; simp at split
  | cons first rest ih =>
      rcases firstUnread_cons.mp h with ⟨unread, rfl⟩ | ⟨regular, later⟩
      · rcases firstUnread_cons.mp h' with ⟨-, rfl⟩ | ⟨regular, -⟩
        · rfl
        · exact absurd regular unread
      · rcases firstUnread_cons.mp h' with ⟨unread, -⟩ | ⟨-, later'⟩
        · exact absurd regular unread
        · exact ih later later'

theorem ReadsAll.not_firstUnread {contents : List Bytes} (h : ReadsAll t project files contents) :
    ¬ FirstUnread t project files name := by
  induction h with
  | nil => rintro ⟨before, after, split, -⟩; simp at split
  | cons reads _ ih =>
      intro first
      rcases firstUnread_cons.mp first with ⟨unread, -⟩ | ⟨-, later⟩
      · exact unread ⟨_, reads⟩
      · exact ih later

theorem ReadsAll.unique {contents contents' : List Bytes} (h : ReadsAll t project files contents)
    (h' : ReadsAll t project files contents') : contents = contents' := by
  have functional : Relator.RightUnique fun name => t.Reads (listedPlace project name) :=
    fun _ _ _ => FileTree.Reads.unique
  exact functional.forall₂ h h'

/-- A file that is read in pieces is fed as a whole. -/
theorem holds_feedContent {s : Hasher} {input : Bytes} (h : s.Holds input) (content : Bytes) :
    (feedContent s content).Holds (input ++ content) := by
  induction s, content using feedContent.induct generalizing input with
  | case1 s content empty =>
      rw [feedContent, if_pos empty, List.isEmpty_iff.mp empty, List.append_nil]
      exact h
  | case2 s content filled ih =>
      have pieces := ih (h.feed (content.take readSize))
      rw [List.append_assoc, List.take_append_drop] at pieces
      rwa [feedContent, if_neg filled]

/-- The induction is on the list; the hasher carries the bytes of the files before. -/
theorem feedFiles_spec {s : Hasher} {input : Bytes} (h : s.Holds input) (files : List String) :
    match feedFiles t project s files with
    | .ok s' => ∃ contents, ReadsAll t project files contents ∧ s'.Holds (input ++ contents.flatten)
    | .error f => ∃ name, FirstUnread t project files name ∧ Refuses t project name f := by
  induction files generalizing s input with
  | nil => exact ⟨[], .nil, by simpa using h⟩
  | cons name rest ih =>
      rw [feedFiles]
      match asked : t.isFile (listedPlace project name) with
      | .error f =>
          have tooLong := FileTree.isTooLong_of_isFile asked
          obtain rfl := Except.error.inj (asked.symm.trans tooLong.isFile)
          exact ⟨name, .head tooLong.not_isRegular, .tooLong tooLong⟩
      | .ok false =>
          have unread : ¬ t.IsRegular (listedPlace project name) := fun h =>
            absurd (asked.symm.trans h.isFile) (by simp)
          have short : ¬ t.IsTooLong (listedPlace project name) := fun h =>
            absurd (asked.symm.trans h.isFile) (by simp)
          exact ⟨name, .head unread, .missing short⟩
      | .ok true =>
          obtain ⟨content, read, reads⟩ := FileTree.reads_of_isFile asked
          rw [listedPlace] at read
          simp only [read, FileTree.orFault]
          have later := ih (holds_feedContent h content.toBytes)
          generalize feedFiles t project (feedContent s content.toBytes) rest = fed at later
          cases fed with
          | ok s' =>
              obtain ⟨contents, all, holds⟩ := later
              refine ⟨content.toBytes :: contents, .cons reads all, ?_⟩
              rwa [List.flatten_cons, ← List.append_assoc]
          | error f =>
              obtain ⟨other, first, refuses⟩ := later
              exact ⟨other, first.cons ⟨_, reads⟩, refuses⟩

namespace CacheSpec

theorem resolveKey_listed {c : CacheSpec} (listed : c.files ≠ []) (t : FileTree) (project : Location) :
    c.resolveKey t project = (feedFiles t project {} c.files).map fun s =>
      scopedKey c.scope (hexText s.finish) := by
  rw [resolveKey, keyBody, if_neg (by simpa using listed)]
  cases feedFiles t project {} c.files with
  | error f => rfl
  | ok s =>
      rw [Except.map, scopedKey]
      rcases scoped_or_plain c.scope with plain | ⟨scope, filled, within⟩
      · simp only [plain]
        rfl
      · simp only [within, filter_nonempty filled]
        rfl

theorem resolveKey_spec {c : CacheSpec} (listed : c.files ≠ []) (t : FileTree) (project : Location) :
    match c.resolveKey t project with
    | .ok key => ∃ contents, ReadsAll t project c.files contents ∧
        key = scopedKey c.scope (hexText (standardDigest contents.flatten))
    | .error f => ∃ name, FirstUnread t project c.files name ∧ Refuses t project name f := by
  have spec := @feedFiles_spec t project _ _ Hasher.holds_start c.files
  rw [resolveKey_listed listed]
  generalize feedFiles t project {} c.files = fed at spec
  cases fed with
  | error f => exact spec
  | ok s =>
      obtain ⟨contents, all, holds⟩ := spec
      refine ⟨contents, all, ?_⟩
      rw [List.nil_append] at holds
      change scopedKey c.scope (hexText s.finish) = _
      rw [holds.finish, digest_eq_standard]

/-- What the cache is told beside the list and the scope has no influence. -/
theorem resolveKey_congr {c c' : CacheSpec} (listed : c.files ≠ []) (files : c'.files = c.files)
    (scope : c'.scope = c.scope) (t : FileTree) (project : Location) :
    c'.resolveKey t project = c.resolveKey t project := by
  rw [resolveKey_listed listed, resolveKey_listed (files ▸ listed), files, scope]

section Listed

variable {c : CacheSpec} (listed : c.files ≠ [])
include listed

theorem resolveKey_eq_ok_iff {key : String} : c.resolveKey t project = .ok key ↔
    ∃ contents, ReadsAll t project c.files contents ∧
      key = scopedKey c.scope (hexText (standardDigest contents.flatten)) := by
  have spec := resolveKey_spec listed t project
  generalize c.resolveKey t project = answer at spec
  cases answer with
  | ok made =>
      obtain ⟨contents, all, rfl⟩ := spec
      constructor
      · intro same
        exact ⟨contents, all, (Except.ok.inj same).symm⟩
      · rintro ⟨contents', all', rfl⟩
        rw [all.unique all']
  | error f =>
      obtain ⟨name, first, -⟩ := spec
      refine iff_of_false nofun ?_
      rintro ⟨contents, all, -⟩
      exact all.not_firstUnread first

theorem resolveKey_eq_error_iff {f : JobFailure} : c.resolveKey t project = .error f ↔
    ∃ name, FirstUnread t project c.files name ∧ Refuses t project name f := by
  have spec := resolveKey_spec listed t project
  generalize c.resolveKey t project = answer at spec
  cases answer with
  | ok made =>
      obtain ⟨contents, all, -⟩ := spec
      refine iff_of_false nofun ?_
      rintro ⟨name, first, -⟩
      exact all.not_firstUnread first
  | error f' =>
      obtain ⟨name, first, refuses⟩ := spec
      constructor
      · intro same
        exact Except.error.inj same ▸ ⟨name, first, refuses⟩
      · rintro ⟨name', first', refuses'⟩
        obtain rfl := first.unique first'
        rw [refuses.unique refuses']

/-- A cache with listed files has a key just where all of them are regular files, through links: the
standard hash of their bytes one after the other, however these are cut into pieces, after the scope. Else
the first path that is no regular file is named, unless a name on its way is too long to be looked up
(whole paths are taken to stay below their limit).
So trees in which the listed files come to the same bytes give the same key, and what the cache is told
beside the list and the scope has no influence. -/
theorem key_of_listed_contents (t : FileTree) (project : Location) :
    (∀ key, c.resolveKey t project = .ok key ↔ ∃ contents, ReadsAll t project c.files contents ∧
      key = scopedKey c.scope (hexText (standardDigest contents.flatten))) ∧
    (∀ name job, c.resolveKey t project = .error (.error (.missingCacheInput name job)) ↔
      job = none ∧ FirstUnread t project c.files name ∧ ¬ t.IsTooLong (listedPlace project name)) ∧
    (∀ f, c.resolveKey t project = .error (.fault f) ↔
      ∃ name, FirstUnread t project c.files name ∧ t.IsTooLong (listedPlace project name) ∧
        f = .file ⟨.nameTooLong, Location.text (listedPlace project name)⟩) ∧
    (∀ pieces : List Bytes, (pieces.foldl Hasher.feed {}).finish = standardDigest pieces.flatten) ∧
    (∀ (c' : CacheSpec) (t' : FileTree) (project' : Location) (contents contents' : List Bytes),
      ReadsAll t project c.files contents → ReadsAll t' project' c'.files contents' →
      c'.files ≠ [] → c'.scope = c.scope → contents'.flatten = contents.flatten →
      c'.resolveKey t' project' = c.resolveKey t project) ∧
    ∀ (key : Option String) (paths : List String) (policy : SavePolicy),
      { c with key, paths, policy }.resolveKey t project = c.resolveKey t project := by
  refine ⟨fun key => resolveKey_eq_ok_iff listed, fun name job => ?_, fun f => ?_,
    fun pieces => ?_, ?_, fun key paths policy =>
      @resolveKey_congr c { c with key, paths, policy } listed rfl rfl t project⟩
  · rw [resolveKey_eq_error_iff listed]
    constructor
    · rintro ⟨name', first, refuses⟩
      cases refuses with
      | missing asked => exact ⟨rfl, first, asked⟩
    · rintro ⟨rfl, first, asked⟩
      exact ⟨name, first, .missing asked⟩
  · rw [resolveKey_eq_error_iff listed]
    constructor
    · rintro ⟨name, first, refuses⟩
      cases refuses with
      | tooLong h => exact ⟨name, first, h, rfl⟩
    · rintro ⟨name, first, tooLong, rfl⟩
      exact ⟨name, first, .tooLong tooLong⟩
  · rw [(Hasher.holds_start.foldl_feed pieces).finish, List.nil_append, digest_eq_standard]
  · intro c' t' project' contents contents' all all' listed' scope same
    rw [(resolveKey_eq_ok_iff listed).mpr ⟨contents, all, rfl⟩, resolveKey_eq_ok_iff listed']
    exact ⟨contents', all', by rw [same, scope]⟩

end Listed

/-- One of the two listed files is read through a link. -/
def linkedInputs : FileTree :=
  ⟨[(["p"], .directory), (["p", "a"], .file (.bytes [0x61, 0x61]) 1), (["p", "l"], .link "b"),
    (["p", "b"], .file (.bytes [0x61]) 2)], 3⟩

/-- Other files with other contents, which come to the same bytes. -/
def movedInputs : FileTree :=
  ⟨[(["p"], .directory), (["p", "a"], .file (.bytes [0x61]) 9),
    (["p", "l"], .file (.bytes [0x61, 0x61, 0x61]) 9), (["p", "out"], .directory)], 10⟩

/-- The first file is listed twice. -/
def sampleSpec : CacheSpec := ⟨["a", "l", "a"], some "s", ["out"], .always, some "k"⟩

theorem key_of_sample_contents :
    sampleSpec.resolveKey linkedInputs ["p"] =
      .ok "s:ed968e840d10d2d313a870bc131a4e2c311d7ad09bdf32b3418147221f51a6e2" ∧
    sampleSpec.resolveKey movedInputs ["p"] = sampleSpec.resolveKey linkedInputs ["p"] := by
  obtain ⟨keys, -, -, -, same, -⟩ :=
    key_of_listed_contents (c := sampleSpec) (by decide) linkedInputs ["p"]
  have relative : "b".startsWith "/" = false := by
    rw [String.startsWith_string_eq_false_iff]
    decide
  have target : pathParts "b" = ["b"] := rfl
  have ofLink : linkedInputs.follow ["p", "l"] = .ok ["p", "b"] := by
    simp [FileTree.follow, FileTree.locate, FileTree.isDirectoryAt, FileTree.entryAt?, FileTree.linkStart,
      FileTree.linkLimit, linkedInputs, Table.get?, relative, target]
    decide
  have first : linkedInputs.follow ["p", "a"] = .ok ["p", "a"] := by
    simp [FileTree.follow, FileTree.locate, FileTree.isDirectoryAt, FileTree.entryAt?, linkedInputs,
      Table.get?]
    decide
  have moved : ∀ name, name = "a" ∨ name = "l" → movedInputs.follow ["p", name] = .ok ["p", name] := by
    rintro name (rfl | rfl) <;>
      simp [FileTree.follow, FileTree.locate, FileTree.isDirectoryAt, FileTree.entryAt?, movedInputs,
        Table.get?] <;> decide
  have readsA : linkedInputs.Reads ["p", "a"] [0x61, 0x61] :=
    ⟨by decide, ["p", "a"], .bytes [0x61, 0x61], first, ⟨1, rfl⟩, rfl⟩
  have readsL : linkedInputs.Reads ["p", "l"] [0x61] :=
    ⟨by decide, ["p", "b"], .bytes [0x61], ofLink, ⟨2, rfl⟩, rfl⟩
  have readsA' : movedInputs.Reads ["p", "a"] [0x61] :=
    ⟨by decide, ["p", "a"], .bytes [0x61], moved "a" (.inl rfl), ⟨9, rfl⟩, rfl⟩
  have readsL' : movedInputs.Reads ["p", "l"] [0x61, 0x61, 0x61] :=
    ⟨by decide, ["p", "l"], .bytes [0x61, 0x61, 0x61], moved "l" (.inr rfl), ⟨9, rfl⟩, rfl⟩
  have linkedReads : ReadsAll linkedInputs ["p"] sampleSpec.files [[0x61, 0x61], [0x61], [0x61, 0x61]] :=
    .cons readsA (.cons readsL (.cons readsA .nil))
  have movedReads : ReadsAll movedInputs ["p"] sampleSpec.files [[0x61], [0x61, 0x61, 0x61], [0x61]] :=
    .cons readsA' (.cons readsL' (.cons readsA' .nil))
  refine ⟨(keys _).mpr ⟨_, linkedReads, ?_⟩,
    same sampleSpec movedInputs ["p"] _ _ linkedReads movedReads (by decide) rfl rfl⟩
  rw [← digest_eq_standard]
  decide +kernel

/-- A name of 256 bytes, one more than a name may have. -/
def longName : String := String.ofList (List.replicate 256 'a')

/-- A path with a name that is too long leads to nothing, and yet it is not reported as missing. -/
theorem long_name_not_reported : FirstUnread {} [] [longName] longName ∧
    CacheSpec.resolveKey { files := [longName] } {} [] =
      .error (.fault (.file ⟨.nameTooLong, Location.text (listedPlace [] longName)⟩)) := by
  have long : FileTree.nameLimit < longName.utf8ByteSize := by decide +kernel
  have text : longName.toList = List.replicate 256 'a' := String.toList_ofList
  have letters : ∀ c ∈ longName.toList, c = 'a' := fun c hc => List.eq_of_mem_replicate (text ▸ hc)
  have other : ∀ name : String, name.utf8ByteSize ≤ FileTree.nameLimit → longName ≠ name := by
    rintro name short rfl
    exact absurd long (Nat.not_lt_of_le short)
  have component : IsComponent longName := ⟨other _ (by decide), other _ (by decide), other _ (by decide),
    fun slash => absurd (letters _ slash) (by decide)⟩
  have tooLong : FileTree.IsTooLong {} (listedPlace [] longName) :=
    isTooLong_listedPlace component (fun nul => absurd (letters _ nul) (by decide)) long
  have first : FirstUnread {} [] [longName] longName := .head tooLong.not_isRegular
  exact ⟨first, (resolveKey_eq_error_iff (List.cons_ne_nil _ _)).mpr ⟨longName, first, .tooLong tooLong⟩⟩

end CacheSpec

end Conveyor
