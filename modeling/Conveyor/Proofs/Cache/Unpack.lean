import Conveyor.Proofs.Archive.Room
import Conveyor.Proofs.Cache.Selection

/-!
Putting kept files back below a directory, one after the other. No kept file lies below another, so
each finds its place as the first one did; in the end all stand, and the rest of the tree is as before.
-/

namespace Conveyor

namespace Catch

/-- Files that can stand side by side. -/
structure Coherent (found : Catch) : Prop where
  proper : ∀ parts c, found parts c → parts ≠ []
  named : ∀ parts c, found parts c → ∀ n ∈ parts, IsName n
  apart : ∀ p c q d, found p c → found q d → p <+: q → p = q
  unique : ∀ parts c d, found parts c → found parts d → c = d

theorem Coherent.mono {found fewer : Catch} (coherent : found.Coherent)
    (sub : ∀ parts c, fewer parts c → found parts c) : fewer.Coherent where
  proper parts c h := coherent.proper parts c (sub parts c h)
  named parts c h := coherent.named parts c (sub parts c h)
  apart p c q d hp hq := coherent.apart p c q d (sub p c hp) (sub q d hq)
  unique parts c d hc hd := coherent.unique parts c d (sub parts c hc) (sub parts d hd)

theorem ofFiles_tail {f : KeptFile} {rest : List KeptFile} (parts : List String) (c : Content)
    (h : ofFiles rest parts c) : ofFiles (f :: rest) parts c :=
  List.mem_cons_of_mem f h

section Single

variable {place : List String} {c : Content}

theorem ofFiles_single {parts : List String} {d : Content} :
    ofFiles [(place, c)] parts d ↔ parts = place ∧ d = c := by
  simp [ofFiles]

theorem coherent_single (proper : place ≠ []) (named : ∀ n ∈ place, IsName n) :
    (ofFiles [(place, c)]).Coherent where
  proper _ _ h := (ofFiles_single.mp h).1 ▸ proper
  named _ _ h := (ofFiles_single.mp h).1 ▸ named
  apart _ _ _ _ hp hq _ := (ofFiles_single.mp hp).1.trans (ofFiles_single.mp hq).1.symm
  unique _ _ _ hd he := (ofFiles_single.mp hd).2.trans (ofFiles_single.mp he).2.symm

end Single

end Catch

namespace FileTree

/-- The files that stand below a directory. -/
def FilesBelow (t : FileTree) (dest : Location) : Catch := fun parts c => t.HasFile (dest ++ parts) c

theorem WellFormed.coherent {t : FileTree} (wf : t.WellFormed) {dest : Location}
    (directory : t.entryAt? dest = some .directory) : (t.FilesBelow dest).Coherent := by
  constructor
  · rintro parts c ⟨m, file⟩ rfl
    rw [List.append_nil, directory] at file
    cases file
  · rintro parts c ⟨m, file⟩ n hn
    exact wf.named _ _ file n (List.mem_append_right dest hn)
  · rintro p c q d ⟨m, hp⟩ ⟨n, hq⟩ hpq
    by_contra hne
    have above : dest ++ p <+: dest ++ q := (List.prefix_append_right_inj dest).mpr hpq
    rw [wf.directory_of_prefix hq above fun h => hne (List.append_cancel_left h)] at hp
    cases hp
  · exact fun parts c d hc hd => HasFile.unique hc hd

theorem Home.coherent {t : FileTree} {project : Location} (wf : t.WellFormed)
    (home : t.Home project) (paths : List String) : (t.Finds project paths).Coherent :=
  (wf.coherent home.directory).mono fun _ _ found => found.2

/-- A directory, there or not, that takes some files: nothing but directories stands at it and above
the files, and neither a directory nor a link stands where they go. -/
structure Receives (t : FileTree) (dest : Location) (found : Catch) : Prop where
  named : ∀ n ∈ dest, IsName n
  itself : t.Passable dest
  above : ∀ parts c, found parts c → t.Passable (dest ++ parts.dropLast)
  place : ∀ parts c, found parts c →
    t.entryAt? (dest ++ parts) = none ∨ ∃ d, t.HasFile (dest ++ parts) d

theorem Receives.mono {t : FileTree} {dest : Location} {found fewer : Catch}
    (receives : t.Receives dest found) (sub : ∀ parts c, fewer parts c → found parts c) :
    t.Receives dest fewer where
  named := receives.named
  itself := receives.itself
  above parts c h := receives.above parts c (sub parts c h)
  place parts c h := receives.place parts c (sub parts c h)

/-- What a directory takes is told from what stands on the way to it and below it. -/
theorem Receives.congr {t t' : FileTree} {dest : Location} {found : Catch}
    (receives : t.Receives dest found)
    (same : ∀ l, l <+: dest ∨ dest <+: l → t'.entryAt? l = t.entryAt? l) :
    t'.Receives dest found := by
  refine ⟨receives.named, fun m hm => ?_, fun parts c h m hm => ?_, fun parts c h => ?_⟩
  · rw [same m (.inl hm)]
    exact receives.itself m hm
  · rw [same m (List.prefix_or_prefix_of_prefix hm (List.prefix_append dest _))]
    exact receives.above parts c h m hm
  · simp only [HasFile, same _ (.inr (List.prefix_append dest parts))]
    exact receives.place parts c h

theorem WellFormed.receives {t : FileTree} (wf : t.WellFormed) {dest : Location}
    (directory : t.entryAt? dest = some .directory) : t.Receives dest (t.FilesBelow dest) := by
  refine ⟨wf.named dest _ directory, wf.passable directory, fun parts c h => ?_,
    fun parts c h => .inr ⟨c, h⟩⟩
  rw [← List.dropLast_append_of_ne_nil ((wf.coherent directory).proper parts c h)]
  obtain ⟨m, file⟩ := h
  exact wf.passable (wf.above _ _ file)

/-- One file is taken where its directory is there already. -/
theorem WellFormed.receives_single {t : FileTree} (wf : t.WellFormed) {dest : Location}
    {place : List String} {c : Content}
    (above : t.entryAt? (dest ++ place.dropLast) = some .directory)
    (free : t.entryAt? (dest ++ place) = none ∨ ∃ d, t.HasFile (dest ++ place) d) :
    t.Receives dest (.ofFiles [(place, c)]) := by
  have pass := wf.passable above
  refine ⟨fun n hn => wf.named _ _ above n (List.mem_append_left _ hn),
    pass.above (List.prefix_append dest _), fun parts d h => ?_, fun parts d h => ?_⟩
  · rw [(Catch.ofFiles_single.mp h).1]
    exact pass
  · rw [(Catch.ofFiles_single.mp h).1]
    exact free

/-- A file stands at a place, and nothing is changed but that place and those above it. -/
structure Delivered (t t' : FileTree) (l : Location) (c : Content) : Prop where
  wellFormed : t'.WellFormed
  file : t'.HasFile l c
  others : ∀ m, ¬ m <+: l → t'.entryAt? m = t.entryAt? m

theorem Delivered.above {t t' : FileTree} {l m : Location} {c : Content} (h : t.Delivered t' l c)
    (hm : m <+: l) (hne : m ≠ l) : t'.entryAt? m = some .directory := by
  obtain ⟨n, hfile⟩ := h.file
  exact h.wellFormed.directory_of_prefix hfile hm hne

/-- Writing a file where the way to it is open. -/
theorem Opened.deliver {t t₁ : FileTree} {l : Location} (opened : t.Opened t₁ l.dropLast)
    (hl : l ≠ []) (names : ∀ n ∈ l, IsName n)
    (place : t.entryAt? l = none ∨ ∃ d, t.HasFile l d) (c : Content) :
    ∃ t₂, t₁.writeFile l c = .ok t₂ ∧ t.Delivered t₂ l c := by
  have free : t₁.entryAt? l ≠ some .directory ∧ ∀ target, t₁.entryAt? l ≠ some (.link target) := by
    rw [opened.child hl]
    rcases place with h | ⟨d, m, h⟩ <;> simp [h]
  obtain ⟨t₂, hrun, written⟩ :=
    opened.wellFormed.writeFile_eq hl names opened.itself free.1 free.2 c
  refine ⟨t₂, hrun, written.wellFormed, written.file, fun m hm => ?_⟩
  rw [written.others m fun h => hm (h ▸ List.prefix_refl l)]
  exact opened.other fun h => hm (h.trans l.dropLast_prefix)

/-- A directory takes the files of a catch after one of them as before. -/
theorem Receives.delivered {t t' : FileTree} {dest : Location} {found : Catch} {parts : List String}
    {c : Content} (receives : t.Receives dest found) (coherent : found.Coherent)
    (h : found parts c) (delivered : t.Delivered t' (dest ++ parts) c) : t'.Receives dest found := by
  have proper := coherent.proper parts c h
  refine ⟨receives.named, fun m hm => .inr ?_, fun q d hq m hm => ?_, fun q d hq => ?_⟩
  · refine delivered.above (hm.trans (List.prefix_append dest parts)) ?_
    rintro rfl
    have := hm.length_le
    have := List.length_pos_of_ne_nil proper
    rw [List.length_append] at *
    omega
  · by_cases hstart : m <+: dest ++ parts
    · refine .inr (delivered.above hstart ?_)
      rintro rfl
      have hm := (List.prefix_append_right_inj dest).mp hm
      have heq := coherent.apart parts c q d h hq (hm.trans q.dropLast_prefix)
      have := (heq ▸ hm).length_le
      have := List.length_pos_of_ne_nil (coherent.proper q d hq)
      rw [List.length_dropLast] at *
      omega
    · rw [delivered.others m hstart]
      exact receives.above q d hq m hm
  · by_cases hstart : dest ++ q <+: dest ++ parts
    · have heq := coherent.apart q d parts c hq h ((List.prefix_append_right_inj dest).mp hstart)
      exact .inr ⟨c, heq ▸ delivered.file⟩
    · simp only [HasFile, delivered.others _ hstart]
      exact receives.place q d hq

/-- The files of a catch stand below a directory, and nothing is changed but their places and those
above them. -/
structure Unpacked (t t' : FileTree) (dest : Location) (found : Catch) : Prop where
  wellFormed : t'.WellFormed
  files : ∀ parts c, found parts c → t'.HasFile (dest ++ parts) c
  others : ∀ l, (∀ parts c, found parts c → ¬ l <+: dest ++ parts) → t'.entryAt? l = t.entryAt? l

theorem Unpacked.nil {t : FileTree} (wf : t.WellFormed) (dest : Location) :
    t.Unpacked t dest (.ofFiles []) :=
  ⟨wf, fun _ _ h => (List.not_mem_nil h).elim, fun _ _ => rfl⟩

theorem Unpacked.cons {t t₁ t' : FileTree} {dest : Location} {f : KeptFile} {rest : List KeptFile}
    (coherent : (Catch.ofFiles (f :: rest)).Coherent) (first : t.Delivered t₁ (dest ++ f.1) f.2)
    (others : t₁.Unpacked t' dest (.ofFiles rest)) : t.Unpacked t' dest (.ofFiles (f :: rest)) := by
  have here : Catch.ofFiles (f :: rest) f.1 f.2 := List.mem_cons_self
  refine ⟨others.wellFormed, fun parts c h => ?_, fun l hl => ?_⟩
  · by_cases later : ∃ d, Catch.ofFiles rest parts d
    · obtain ⟨d, hd⟩ := later
      rw [coherent.unique parts c d h (Catch.ofFiles_tail parts d hd)]
      exact others.files parts d hd
    · rcases List.mem_cons.mp h with rfl | hmem
      · -- no later file touches the place of the first
        have same := others.others (dest ++ parts) fun q d hq hstart => by
          have hq' := Catch.ofFiles_tail (f := (parts, c)) q d hq
          have heq := coherent.apart parts c q d here hq'
            ((List.prefix_append_right_inj dest).mp hstart)
          exact later ⟨d, heq ▸ hq⟩
        rw [HasFile, same]
        exact first.file
      · exact absurd ⟨c, hmem⟩ later
  · rw [others.others l fun parts c h => hl parts c (Catch.ofFiles_tail parts c h),
      first.others l (hl f.1 f.2 here)]

/-- What became of the places that are none of the files'. -/
theorem Unpacked.frame {t t' : FileTree} {dest : Location} {found : Catch}
    (unpacked : t.Unpacked t' dest found) (coherent : found.Coherent)
    (receives : t.Receives dest found) {l : Location}
    (hl : ∀ parts c, found parts c → l ≠ dest ++ parts) :
    t'.entryAt? l = t.entryAt? l ∨ t.entryAt? l = none ∧ t'.entryAt? l = some .directory ∧
      ∃ parts c, found parts c ∧ l <+: dest ++ parts := by
  by_cases above : ∃ parts c, found parts c ∧ l <+: dest ++ parts
  · obtain ⟨parts, c, h, hstart⟩ := above
    have hne := hl parts c h
    obtain ⟨m, hfile⟩ := unpacked.files parts c h
    have now := unpacked.wellFormed.directory_of_prefix hfile hstart hne
    have way : l <+: dest ++ parts.dropLast := by
      rw [← List.dropLast_append_of_ne_nil (coherent.proper parts c h)]
      exact prefix_dropLast hstart hne
    rcases receives.above parts c h l way with before | before
    · exact .inr ⟨before, now, parts, c, h, hstart⟩
    · exact .inl (now.trans before.symm)
  · exact .inl (unpacked.others l fun parts c h hstart => above ⟨parts, c, h, hstart⟩)

end FileTree

open FileTree

section Writers

variable {dest : Location} {files : List KeptFile}

/-- Where a kept file goes. -/
theorem KeptFile.place_eq {found : Catch} (coherent : found.Coherent) {f : KeptFile}
    (h : found f.1 f.2) (dest : Location) :
    Location.ofPath dest (Path.ofText f.name) = dest ++ f.1 ∧
      Tar.target dest f.name = dest ++ f.1 := by
  have proper := coherent.proper f.1 f.2 h
  have components := fun n hn => (coherent.named f.1 f.2 h n hn).component
  refine ⟨?_, Tar.target_intercalate dest proper components⟩
  rw [KeptFile.name, Path.ofText_intercalate proper components]
  rfl

/-- What the first file needs to be put in its place, and what it leaves to the others. -/
theorem FileTree.Receives.first {t : FileTree} {f : KeptFile} {rest : List KeptFile}
    (receives : t.Receives dest (.ofFiles (f :: rest))) (coherent : (Catch.ofFiles (f :: rest)).Coherent) :
    dest ++ f.1 ≠ [] ∧ (∀ n ∈ dest ++ f.1, IsName n) ∧ t.Passable (dest ++ f.1).dropLast := by
  have here : Catch.ofFiles (f :: rest) f.1 f.2 := List.mem_cons_self
  have proper := coherent.proper f.1 f.2 here
  refine ⟨fun h => proper (List.append_eq_nil_iff.mp h).2, ?_, ?_⟩
  · exact List.forall_mem_append.mpr ⟨receives.named, coherent.named f.1 f.2 here⟩
  · rw [List.dropLast_append_of_ne_nil proper]
    exact receives.above f.1 f.2 here

theorem MemoryStore.run_writeFiles {σ : Type} {w : World σ} (wf : w.files.WellFormed)
    (coherent : (Catch.ofFiles files).Coherent) (receives : w.files.Receives dest (.ofFiles files)) :
    ∃ t', (writeFiles dest (files.map KeptFile.entry)).run.run w =
      (.ok (), { w with files := t' }) ∧ w.files.Unpacked t' dest (.ofFiles files) := by
  induction files generalizing w with
  | nil => exact ⟨w.files, rfl, .nil wf dest⟩
  | cons f rest ih =>
      have here : Catch.ofFiles (f :: rest) f.1 f.2 := List.mem_cons_self
      obtain ⟨hne, names, pass⟩ := receives.first coherent
      obtain ⟨t₁, hmade, opened⟩ := wf.makeDirectories_eq
        (fun n hn => names n (List.mem_of_mem_dropLast hn)) pass
      obtain ⟨t₂, hwritten, delivered⟩ := opened.deliver hne names (receives.place f.1 f.2 here) f.2
      obtain ⟨t', hrest, unpacked⟩ := ih (w := { w with files := t₂ }) delivered.wellFormed
        (coherent.mono Catch.ofFiles_tail)
        ((receives.delivered coherent here delivered).mono Catch.ofFiles_tail)
      refine ⟨t', ?_, .cons coherent delivered unpacked⟩
      have made := Action.run_onFiles (·.makeDirectories (dest ++ f.1).dropLast) w
      rw [hmade] at made
      rw [List.map_cons, KeptFile.entry, writeFiles, (KeptFile.place_eq coherent here dest).1,
        Location.parent, run_bind_ok made, run_bind_ok (Action.run_change_ok hwritten)]
      exact hrest

namespace Tar

theorem Listing.run_placeAll (listing : Listing) (before : List Member) {t : FileTree}
    (wf : t.WellFormed) (coherent : (Catch.ofFiles files).Coherent)
    (receives : t.Receives dest (.ofFiles files)) :
    ∃ t', (listing.placeAll dest before (files.map KeptFile.member)).run.run t = (.ok (), t') ∧
      t.Unpacked t' dest (.ofFiles files) := by
  induction files generalizing t before with
  | nil => exact ⟨t, rfl, .nil wf dest⟩
  | cons f rest ih =>
      have here : Catch.ofFiles (f :: rest) f.1 f.2 := List.mem_cons_self
      obtain ⟨hne, names, pass⟩ := receives.first coherent
      obtain ⟨t₁, hroom, opened⟩ := run_makeRoom wf names pass
      obtain ⟨t₂, hwritten, delivered⟩ := opened.deliver hne names (receives.place f.1 f.2 here) f.2
      obtain ⟨t', hrest, unpacked⟩ := ih (before ++ [f.member]) delivered.wellFormed
        (coherent.mono Catch.ofFiles_tail)
        ((receives.delivered coherent here delivered).mono Catch.ofFiles_tail)
      refine ⟨t', ?_, .cons coherent delivered unpacked⟩
      have placed : (listing.place dest (listing.members.length + 2) before f.member
          (target dest f.member.name)).run.run t = (.ok (), t₂) := by
        have there : target dest f.member.name = dest ++ f.1 :=
          (KeptFile.place_eq coherent here dest).2
        rw [there, Listing.place, run_bind_ok hroom]
        exact run_change_ok hwritten
      rw [List.map_cons, Listing.placeAll, run_bind_ok placed]
      exact hrest

theorem Listing.run_extract {t : FileTree} (wf : t.WellFormed)
    (coherent : (Catch.ofFiles files).Coherent) (receives : t.Receives dest (.ofFiles files)) :
    ∃ t', ((Listing.whole (files.map KeptFile.member)).extract dest).run.run t = (.ok (), t') ∧
      t.Unpacked t' dest (.ofFiles files) := by
  obtain ⟨t', hrun, unpacked⟩ := Listing.run_placeAll (Listing.whole (files.map KeptFile.member)) []
    wf coherent receives
  refine ⟨t', ?_, unpacked⟩
  have members : (Listing.whole (files.map KeptFile.member)).members = files.map KeptFile.member := rfl
  rw [Listing.extract, members, run_bind_ok hrun]
  rfl

end Tar

end Writers

end Conveyor
