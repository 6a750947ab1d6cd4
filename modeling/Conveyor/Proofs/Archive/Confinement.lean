import Conveyor.Proofs.Archive.Room
import Conveyor.Proofs.Files.Removal

/-!
Where the members of an archive go. A name without double dots leads below the directory of the extraction
as long as no link stands on the way, and links stand only where members have put them. The target of a hard
link is changed with it, so it must lead there too. An archive whose names and targets of hard links are
relative and free of double dots, none of them at or below the place of a link, changes nothing outside of
the directory.
-/

namespace Conveyor

/-- The components that lead somewhere. -/
def plainParts (parts : List String) : List String := parts.filter fun c => c ≠ "" ∧ c ≠ "."

namespace FileTree

/-- Components without double dots lead down, where no link is on the way. -/
theorem locate_down (t : FileTree) (last : Bool) (links : Nat) (place : Location) (parts : List String)
    (noDots : ".." ∉ parts)
    (free : ∀ r, r <+: plainParts parts → ∀ target, t.entryAt? (place ++ r) ≠ some (.link target))
    {real : Location} (h : t.locate last links place parts = .ok real) :
    real = place ++ plainParts parts := by
  induction parts generalizing place with
  | nil =>
      rw [locate] at h
      cases h
      simp [plainParts]
  | cons c rest ih =>
      obtain ⟨dots, others⟩ := not_or.mp (List.mem_cons.not.mp noDots)
      by_cases inside : t.isDirectoryAt place = true
      · by_cases still : c = "" ∨ c = "."
        · have skipped : plainParts (c :: rest) = plainParts rest := by
            rcases still with rfl | rfl <;> simp [plainParts]
          rw [locate, if_neg (by simp [inside]), if_pos still] at h
          rw [skipped] at free ⊢
          exact ih place others free h
        · have further : plainParts (c :: rest) = c :: plainParts rest := by
            simp [plainParts, not_or.mp still]
          rw [further] at free ⊢
          have next : ∀ r, r <+: plainParts rest → ∀ target,
              t.entryAt? (place ++ [c] ++ r) ≠ some (.link target) := by
            intro r hr target
            simpa using free (c :: r) (List.cons_prefix_cons.mpr ⟨rfl, hr⟩) target
          by_cases long : nameLimit < c.utf8ByteSize
          · rw [locate, if_neg (by simp [inside]), if_neg still, if_neg (Ne.symm dots), if_pos long] at h
            cases h
          · rw [t.locate_step last links rest inside ⟨still, Ne.symm dots⟩ long] at h
            split at h
            · split at h
              · rename_i ended
                cases h
                rw [List.isEmpty_iff.mp ended]
                rfl
              · cases h
            · rename_i target link
              exact absurd link (free [c] (by simp) target)
            · rw [ih (place ++ [c]) others next h]
              simp
      · rw [locate, if_pos (by simpa using inside)] at h
        cases h

/-- A directory with nothing but directories above it, and no component that leads nowhere or up. -/
structure Anchored (t : FileTree) (dest : Location) : Prop where
  firm : t.Firm dest
  plain : ∀ c ∈ dest, IsPlain c

/-- A tree that differs from another below a directory only, and has links there only at some places. -/
structure Inside (dest : Location) (links : List String → Prop) (t t' : FileTree) : Prop where
  outside : ∀ l, ¬dest <+: l → t'.entryAt? l = t.entryAt? l
  directory : t'.entryAt? dest = some .directory
  links : ∀ parts target, t'.entryAt? (dest ++ parts) = some (.link target) → links parts

/-- Components that lead down, past no place of a link. -/
structure Open (links : List String → Prop) (parts : List String) : Prop where
  noDots : ".." ∉ parts
  free : ∀ r, r <+: plainParts parts → ¬links r

section

variable {t t' : FileTree} {dest : Location} {links : List String → Prop} {parts : List String}

theorem Inside.mono {more : List String → Prop} (inside : Inside dest links t t')
    (h : ∀ q, links q → more q) : Inside dest more t t' :=
  ⟨inside.outside, inside.directory, fun q target link => h q (inside.links q target link)⟩

theorem Inside.firm (anchored : t.Anchored dest) (inside : Inside dest links t t') : t'.Firm dest := by
  intro m hm
  by_cases itself : dest <+: m
  · rw [hm.eq_of_length_le itself.length_le, inside.directory]
  · rw [inside.outside m itself, anchored.firm m hm]

/-- Where a path goes that holds no double dots and meets no link. -/
theorem Inside.locate (anchored : t.Anchored dest) (inside : Inside dest links t t')
    (way : Open links parts) {last : Bool} {n : Nat} {real : Location}
    (h : t'.locate last n [] (dest ++ parts) = .ok real) : real = dest ++ plainParts parts := by
  have kept : plainParts (dest ++ parts) = dest ++ plainParts parts := by
    rw [plainParts, List.filter_append, List.filter_eq_self.mpr]
    · rfl
    · intro c hc
      simpa [not_or] using (anchored.plain c hc).1
  rw [← kept]
  refine t'.locate_down last n [] _ ?_ (fun r hr target link => ?_) h
  · intro dots
    rcases List.mem_append.mp dots with up | up
    · exact (anchored.plain _ up).2 rfl
    · exact way.noDots up
  · rw [List.nil_append] at link
    rw [kept] at hr
    rcases List.prefix_or_prefix_of_prefix hr (List.prefix_append dest _) with above | ⟨q, rfl⟩
    · rw [inside.firm anchored r above] at link
      cases link
    · exact way.free q ((List.prefix_append_right_inj dest).mp hr) (inside.links q target link)

/-- Where a path above the directory goes. -/
theorem Inside.locate_above (anchored : t.Anchored dest) (inside : Inside dest links t t') {l : Location}
    (above : l <+: dest) {last : Bool} {n : Nat} {real : Location} (h : t'.locate last n [] l = .ok real) :
    real = l := by
  have plain : ∀ c ∈ l, IsPlain c := fun c hc => anchored.plain c (above.subset hc)
  have kept : plainParts l = l := List.filter_eq_self.mpr fun c hc => by simpa [not_or] using (plain c hc).1
  have down := t'.locate_down last n [] l (fun dots => (plain _ dots).2 rfl) (fun r hr target link => ?_) h
  · rwa [kept] at down
  · rw [kept] at hr
    rw [List.nil_append, inside.firm anchored r (hr.trans above)] at link
    cases link

/-- A new entry below the directory. -/
theorem Inside.set (inside : Inside dest links t t') {e : Entry} {more : List String → Prop}
    (proper : parts ≠ []) (linked : ∀ target, e = .link target → more parts) (h : ∀ q, links q → more q) :
    Inside dest more t (t'.set (dest ++ parts) e) := by
  have view := t'.entryAt?_set (l := dest ++ parts) (by simp [proper]) e
  refine ⟨fun l hl => ?_, ?_, fun q target link => ?_⟩
  · rw [view, if_neg, inside.outside l hl]
    rintro rfl
    exact hl (List.prefix_append dest parts)
  · rw [view, if_neg (by simp [proper]), inside.directory]
  · rw [view] at link
    split at link
    · rename_i same
      obtain rfl := List.append_cancel_left same
      exact linked target (Option.some.inj link)
    · exact h q (inside.links q target link)

/-- What stands at a place of the extraction that is not a directory is below the directory. -/
theorem Inside.proper (inside : Inside dest links t t')
    (h : t'.entryAt? (dest ++ parts) ≠ some .directory) : parts ≠ [] := by
  rintro rfl
  rw [List.append_nil] at h
  exact h inside.directory

variable (anchored : t.Anchored dest) (inside : Inside dest links t t')
include anchored inside

theorem Inside.writeFile (way : Open links parts) {c : Content} {t'' : FileTree}
    (h : t'.writeFile (dest ++ parts) c = .ok t'') : Inside dest links t t'' := by
  obtain ⟨real, leads, h⟩ := ok_of_bind_ok h
  obtain rfl := inside.locate anchored way leads
  split at h
  · cases h
  · rename_i there
    cases h
    exact inside.set (inside.proper (by simp [there])) nofun fun _ => id
  · rename_i directory _
    cases h
    exact inside.set (inside.proper directory) nofun fun _ => id

theorem Inside.makeDirectory {l : Location}
    (way : l <+: dest ∨ ∃ parts, l = dest ++ parts ∧ Open links parts) {t'' : FileTree}
    (h : t'.makeDirectory l = .ok t'') : Inside dest links t t'' := by
  obtain ⟨real, leads, h⟩ := ok_of_bind_ok h
  split at h
  · cases h
  · rename_i missing
    cases h
    rcases way with above | ⟨parts, rfl, way⟩
    · obtain rfl := inside.locate_above anchored above leads
      cases missing.symm.trans (inside.firm anchored _ above)
    · obtain rfl := inside.locate anchored way leads
      exact inside.set (inside.proper (by simp [missing])) nofun fun _ => id

theorem Inside.removeFile (way : Open links parts) {t'' : FileTree}
    (h : t'.removeFile (dest ++ parts) = .ok t'') : Inside dest links t t'' := by
  obtain ⟨real, leads, rfl, thins, gone⟩ := removeFile_ok h
  obtain rfl := inside.locate anchored way leads
  have proper : dest ++ plainParts parts ≠ [] := fun root => by
    rw [root] at gone
    cases gone
  refine ⟨fun l hl => ?_, thins.firm (inside.firm anchored) dest (List.prefix_refl dest),
    fun q target link => ?_⟩
  · rw [entryAt?_removeTree t' proper, if_neg fun below => hl ((List.prefix_append dest _).trans below),
      inside.outside l hl]
  · rcases thins.kept (dest ++ q) with same | ⟨none, -⟩
    · exact inside.links q target (same ▸ link)
    · cases none.symm.trans link

theorem Inside.makeLink (way : Open links parts) {target : String} {t'' : FileTree}
    (h : t'.makeLink (dest ++ parts) target = .ok t'') :
    Inside dest (fun q => links q ∨ q = plainParts parts) t t'' := by
  unfold FileTree.makeLink at h
  split at h
  · cases h
  · obtain ⟨real, leads, h⟩ := ok_of_bind_ok h
    obtain rfl := inside.locate anchored way leads
    split at h
    · cases h
    · rename_i missing
      cases h
      exact inside.set (inside.proper (by simp [missing])) (fun _ _ => .inr rfl) fun _ => .inl

/-- A second name for what no link leads to; it is no link either. -/
theorem Inside.addName (way : Open links parts) {known : List String} (aim : Open links known)
    {t'' : FileTree} (h : t'.addName (dest ++ known) (dest ++ parts) = .ok t'') :
    Inside dest links t t'' := by
  obtain ⟨real, leads, h⟩ := ok_of_bind_ok h
  obtain rfl := inside.locate anchored way leads
  obtain ⟨other, leads, h⟩ := ok_of_bind_ok h
  obtain rfl := inside.locate anchored aim leads
  split at h
  · cases h
  · cases h
  · cases h
  · rename_i c m there missing
    cases h
    have proper : plainParts known ≠ [] := inside.proper (by simp [there])
    have touched : Inside dest links t (t'.set (dest ++ plainParts known) (.file c 0)) :=
      inside.set proper nofun fun _ => id
    exact touched.set (inside.proper (by simp [missing])) nofun fun _ => id
  · rename_i target there missing
    exact absurd (inside.links _ target there) (aim.free _ (List.prefix_refl _))

end

end FileTree

def MemberBody.isLink : MemberBody → Bool
  | .link _ => true
  | _ => false

namespace Tar

open FileTree

/-- From trees with one property, an extraction that succeeds leaves such with another, and one that stops
leaves such with a third. -/
def Leaves {α : Type} (before : FileTree → Prop) (x : Extraction α)
    (after stopped : FileTree → Prop) : Prop :=
  ∀ t, before t → match x.run.run t with
    | (.ok _, t') => after t'
    | (.error _, t') => stopped t'

namespace Leaves

variable {α β : Type} {before after stopped : FileTree → Prop}

theorem mono {x : Extraction α} {before' after' stopped' : FileTree → Prop}
    (h : Leaves before x after stopped) (hb : ∀ t, before' t → before t) (ha : ∀ t, after t → after' t)
    (hs : ∀ t, stopped t → stopped' t) : Leaves before' x after' stopped' := by
  intro t ht
  have left := h t (hb t ht)
  split <;> rename_i run <;> rw [run] at left
  · exact ha _ left
  · exact hs _ left

theorem pure (a : α) : Leaves before (Pure.pure a : Extraction α) before stopped := fun _ h => h

theorem throw (f : ExtractFailure) : Leaves before (MonadExcept.throw f : Extraction α) after before :=
  fun _ h => h

theorem bind {x : Extraction α} {k : α → Extraction β} {between : FileTree → Prop}
    (hx : Leaves before x between stopped) (hk : ∀ a, Leaves between (k a) after stopped) :
    Leaves before (x >>= k) after stopped := by
  intro t ht
  have first := hx t ht
  match run : x.run.run t with
  | (.ok a, t₁) =>
      rw [run] at first
      rw [run_bind_ok run]
      exact hk a t₁ first
  | (.error f, t₁) =>
      rw [run] at first
      rw [run_bind_error run]
      exact first

theorem ite {c : Prop} [Decidable c] {x y : Extraction α} (hx : Leaves before x after stopped)
    (hy : Leaves before y after stopped) : Leaves before (if c then x else y) after stopped := by
  split
  · exact hx
  · exact hy

theorem change {l : Location} {f : FileTree → Except Refusal FileTree}
    (h : ∀ t t', before t → f t = .ok t' → after t') : Leaves before (Tar.change l f) after before := by
  intro t ht
  cases hf : f t with
  | ok t' =>
      rw [run_change_ok hf]
      exact h t t' ht hf
  | error r =>
      rw [run_change_error hf]
      exact ht

theorem onRefusal {work : Extraction Unit} {otherwise : FileError → Extraction Unit}
    (hwork : Leaves before work after stopped)
    (hotherwise : ∀ e, Leaves stopped (otherwise e) after stopped) :
    Leaves before (Tar.onRefusal work otherwise) after stopped := by
  intro t ht
  have first := hwork t ht
  match run : work.run.run t with
  | (answer, t₁) =>
      by_cases refused : ∃ e, answer = .error (.refused e)
      · obtain ⟨e, rfl⟩ := refused
        rw [run] at first
        rw [run_onRefusal_refused run]
        exact hotherwise e t₁ first
      · rw [run_onRefusal_other run fun e he => refused ⟨e, he⟩]
        rw [run] at first
        exact first

/-- A question leaves the tree as it is. -/
theorem ask {x : Extraction α} (same : ∀ t, (x.run.run t).2 = t) : Leaves before x before before := by
  intro t ht
  have left := same t
  split <;> rename_i run <;> rw [run] at left <;> obtain rfl : _ = t := left <;> exact ht

theorem stands (l : Location) : Leaves before (Tar.stands l) before before := ask fun _ => rfl

theorem standsItself (l : Location) : Leaves before (Tar.standsItself l) before before := by
  refine ask fun t => ?_
  unfold Tar.standsItself
  rw [run_bind_ok (run_get t)]
  split <;> rfl

end Leaves

section

variable {t : FileTree} {dest : Location} (anchored : t.Anchored dest) {links : List String → Prop}
  {parts : List String} (way : Open links parts)

/-- A path above a directory, or one that leads down from it. -/
def OnWay (dest : Location) (links : List String → Prop) (l : Location) : Prop :=
  l <+: dest ∨ ∃ parts, l = dest ++ parts ∧ Open links parts

theorem OnWay.parent {l : Location} (onWay : OnWay dest links l) : OnWay dest links l.dropLast := by
  rcases onWay with above | ⟨parts, rfl, way⟩
  · exact .inl (l.dropLast_prefix.trans above)
  · by_cases none : parts = []
    · rw [none, List.append_nil]
      exact .inl dest.dropLast_prefix
    · refine .inr ⟨parts.dropLast, List.dropLast_append_of_ne_nil none, ?_, fun r hr => ?_⟩
      · exact fun dots => way.noDots (List.mem_of_mem_dropLast dots)
      · exact way.free r (hr.trans (parts.dropLast_prefix.filter _))

include anchored

theorem leaves_makeMissing {l : Location} (onWay : OnWay dest links l) :
    Leaves (Inside dest links t) (makeMissing l) (Inside dest links t) (Inside dest links t) := by
  have last : Leaves (Inside dest links t) (change l (·.makeDirectory l)) (Inside dest links t)
      (Inside dest links t) := .change fun _ _ inside made => inside.makeDirectory anchored onWay made
  rw [makeMissing]
  split
  · rename_i habove
    have shorter : l.dropLast.length < l.length := by
      cases l with
      | nil => simp at habove
      | cons c rest => simp
    refine .bind (.stands _) fun there => .ite ?_ last
    refine .bind (.onRefusal (leaves_makeMissing onWay.parent) fun e => ?_) fun _ => ?_
    · exact .ite (.pure _) (.throw _)
    · exact .ite (.pure _) last
  · exact last
termination_by l.length

end

/-- The places of links after a member is in its place. -/
def linksAfter (links : List String → Prop) (parts : List String) (body : MemberBody) :
    List String → Prop :=
  fun q => links q ∨ (body.isLink = true ∧ q = plainParts parts)

theorem linksAfter_of_link {links : List String → Prop} {parts : List String} {body other : MemberBody}
    (link : body.isLink = true) {q : List String} (h : linksAfter links parts other q) :
    linksAfter links parts body q :=
  h.imp_right fun h => ⟨link, h.2⟩

theorem linksAfter_of_no_link {links : List String → Prop} {parts : List String} {body : MemberBody}
    (noLink : body.isLink = false) {q : List String} (h : linksAfter links parts body q) : links q := by
  rcases h with h | ⟨link, -⟩
  · exact h
  · cases noLink.symm.trans link

/-- What is found among members is one of them, and so are those before it. -/
theorem findLast_found {p : Path} {among before : List Member} {found : Member}
    (h : findLast p among = some (found, before)) :
    found ∈ among ∧ (∀ a ∈ before, a ∈ among) ∧ plainPath (Path.ofText found.name) = plainPath p := by
  induction among generalizing before with
  | nil => cases h
  | cons m rest ih =>
      rw [findLast] at h
      split at h
      · rename_i later
        cases h
        obtain ⟨mem, others, same⟩ := ih later
        refine ⟨List.mem_cons_of_mem m mem, fun a ha => ?_, same⟩
        exact (List.mem_cons.mp ha).elim (fun h => h ▸ List.mem_cons_self)
          fun h => List.mem_cons_of_mem m (others a h)
      · split at h
        · rename_i same
          cases h
          exact ⟨List.mem_cons_self, by simp, same⟩
        · cases h

section

variable {t : FileTree} {dest : Location} (anchored : t.Anchored dest) {links : List String → Prop}
  {parts : List String} (way : Open links parts)
include anchored way

theorem leaves_makeRoom : Leaves (Inside dest links t) (makeRoom (dest ++ parts)) (Inside dest links t)
    (Inside dest links t) := by
  have above : OnWay dest links (dest ++ parts).dropLast := OnWay.parent (.inr ⟨parts, rfl, way⟩)
  have made : Leaves (Inside dest links t) (do
      if !(← stands (dest ++ parts).dropLast) then makeMissing (dest ++ parts).dropLast)
      (Inside dest links t) (Inside dest links t) :=
    .bind (.stands _) fun _ => .ite (leaves_makeMissing anchored above) (.pure _)
  exact .ite (.bind (.throw _) fun _ => made) made

end

theorem Listing.leaves_substitute (listing : Listing) {again : List Member → Member → Extraction Unit}
    {otherwise : Extraction Unit} {before after : FileTree → Prop} {p : Path} {among : List Member}
    (hagain : ∀ found others, findLast p among = some (found, others) →
      Leaves before (again others found) after before)
    (hotherwise : Leaves before otherwise after before) :
    Leaves before (listing.substitute again p among otherwise) after before := by
  intro t ht
  cases failed : listing.failure with
  | some f =>
      have run : (listing.search p among).run.run t = (.error (.reading f), t) := by
        rw [search, failed]
        rfl
      rw [substitute, run_bind_error run]
      exact ht
  | none =>
      have run : (listing.search p among).run.run t = (.ok (findLast p among), t) := by
        rw [search, failed]
        rfl
      rw [substitute, run_bind_ok run]
      match hfound : findLast p among with
      | some (found, others) => exact hagain found others hfound t ht
      | none => exact hotherwise t ht

/-- A path of an archive that is relative and free of double dots. -/
structure LeadsDown (name : String) : Prop where
  relative : name.startsWith "/" = false
  noDots : ".." ∉ pathParts name

/-- A path of an archive that does not go to the place of a link, or below it. -/
def Clears (m : Member) (name : String) : Prop :=
  m.body.isLink = true → ¬pathParts m.name <+: pathParts name

/-- All that an extraction puts in place, the file that breaks off last. -/
def Listing.entries (listing : Listing) : List Member :=
  listing.members ++ (listing.broken.map fun (name, kept) => Member.mk name (.file (.bytes kept))).toList

/-- All members go below the directory of the extraction, and what hard links give a second name is there
too: every path leads down, and none but that of a link itself goes to its place or below it. -/
structure Listing.Inward (listing : Listing) : Prop where
  names : ∀ m ∈ listing.entries, LeadsDown m.name
  apart : listing.entries.Pairwise fun a b => Clears a b.name ∧ Clears b a.name
  targets : ∀ m ∈ listing.entries, ∀ text, m.body = .hardLink text →
    LeadsDown text ∧ ∀ a ∈ listing.entries, Clears a text

theorem plainParts_rawParts (name : String) : plainParts (rawParts name) = pathParts name := by
  rw [plainParts, rawParts, List.filter_filter, pathParts]
  refine List.filter_congr fun c _ => ?_
  by_cases empty : c = "" <;> simp [empty]

/-- The places of the links among some members. -/
def linksOf (placed : List Member) (q : List String) : Prop :=
  ∃ m ∈ placed, m.body.isLink = true ∧ q = pathParts m.name

namespace LeadsDown

variable {name : String} (down : LeadsDown name)
include down

/-- A path that passes no place of a link. -/
theorem open_rawParts {placed : List Member} (clear : ∀ a ∈ placed, Clears a name) :
    Open (linksOf placed) (rawParts name) := by
  refine ⟨fun dots => down.noDots ?_, fun r hr linked => ?_⟩
  · rw [← plainParts_rawParts]
    exact List.mem_filter.mpr ⟨dots, by simp⟩
  · obtain ⟨a, ha, link, rfl⟩ := linked
    rw [plainParts_rawParts] at hr
    exact clear a ha link hr

theorem target_eq (root : Location) : target root name = root ++ rawParts name := by
  rw [target, if_neg (by simp [down.relative])]

theorem plainPath_parts : (plainPath (Path.ofText name)).parts = pathParts name := by
  have kept : ∀ isAbsolute done parts, ".." ∉ parts →
      cancelDots isAbsolute done parts = done.reverse ++ parts := by
    intro isAbsolute done parts noDots
    induction parts generalizing done with
    | nil => simp [cancelDots]
    | cons c rest ih =>
        obtain ⟨dots, others⟩ := not_or.mp (List.mem_cons.not.mp noDots)
        unfold cancelDots
        rw [if_neg (Ne.symm dots), ih (c :: done) others]
        simp
  exact kept _ [] _ down.noDots

end LeadsDown

namespace Listing

variable {listing : Listing} {placed : List Member} (hplaced : ∀ a ∈ placed, a ∈ listing.entries)

section Inward

variable (inward : listing.Inward) {m : Member} (hm : m ∈ listing.entries) {text : String}
  (body : m.body = .hardLink text)
include inward hm body

theorem Inward.aim (dest : Location) (hplaced : ∀ a ∈ placed, a ∈ listing.entries) :
    target dest text = dest ++ rawParts text ∧ Open (linksOf placed) (rawParts text) := by
  obtain ⟨down, clear⟩ := inward.targets m hm text body
  exact ⟨down.target_eq dest, down.open_rawParts fun a ha => clear a (hplaced a ha)⟩

/-- What is found for the target of a hard link is no link. -/
theorem Inward.no_link_of_found {among others : List Member} {found : Member}
    (hamong : ∀ a ∈ among, a ∈ listing.entries)
    (h : findLast (Path.ofText text) among = some (found, others)) : found.body.isLink = false := by
  obtain ⟨mem, -, same⟩ := findLast_found h
  obtain ⟨down, clear⟩ := inward.targets m hm text body
  have itself := hamong found mem
  have same : pathParts found.name = pathParts text := by
    rw [← (inward.names found itself).plainPath_parts, ← down.plainPath_parts, same]
  exact Bool.eq_false_iff.mpr fun link => clear found itself link (same ▸ List.prefix_refl _)

end Inward

/-- Work that puts a body in its place in the directory of the extraction. Links then stand where they stood
before, and in that place if the body is one. -/
abbrev PutsIn (placed : List Member) (dest : Location) (t : FileTree) (parts : List String)
    (body : MemberBody) (work : Extraction Unit) : Prop :=
  Leaves (Inside dest (linksOf placed) t) work (Inside dest (linksAfter (linksOf placed) parts body) t)
    (Inside dest (linksOf placed) t)

section Place

variable (inward : listing.Inward) {t : FileTree} {dest : Location} (anchored : t.Anchored dest)
  {parts : List String} (way : Open (linksOf placed) parts)

omit hplaced in
theorem PutsIn.of_inside {body : MemberBody} {work : Extraction Unit}
    (h : Leaves (Inside dest (linksOf placed) t) work (Inside dest (linksOf placed) t)
      (Inside dest (linksOf placed) t)) : PutsIn placed dest t parts body work :=
  h.mono (fun _ => id) (fun _ inside => inside.mono fun _ => .inl) fun _ => id

section Again

variable {again : List Member → Member → Extraction Unit}
  (hagain : ∀ others found, found ∈ listing.entries → (∀ a ∈ others, a ∈ listing.entries) →
    PutsIn placed dest t parts found.body (again others found))
include anchored way hagain

omit hplaced in
theorem putsIn_link (before : List Member) (name text : String) :
    PutsIn placed dest t parts (.link text)
      (listing.placeBody dest again before name (dest ++ parts) (.link text)) := by
  have members : ∀ a ∈ listing.members, a ∈ listing.entries := fun a ha => List.mem_append_left _ ha
  have removed : Leaves (Inside dest (linksOf placed) t)
      (change (dest ++ parts) (·.removeFile (dest ++ parts))) (Inside dest (linksOf placed) t)
      (Inside dest (linksOf placed) t) :=
    .change fun _ _ inside removed => inside.removeFile anchored way removed
  have made : PutsIn placed dest t parts (.link text)
      (change (dest ++ parts) (·.makeLink (dest ++ parts) text)) :=
    .change fun _ t₂ inside made =>
      (inside.makeLink anchored way made).mono fun _ h => h.imp_right fun h => ⟨rfl, h⟩
  refine .onRefusal (.bind (.standsItself _) fun _ => .ite (.bind removed fun _ => made) made)
    fun _ => ?_
  -- what takes the place of a link may itself be one
  refine leaves_substitute _ (fun found others h => ?_) (PutsIn.of_inside (.pure ()))
  obtain ⟨mem, among, -⟩ := findLast_found h
  exact (hagain others found (members found mem) fun a ha => members a (among a ha)).mono (fun _ => id)
    (fun _ inside => inside.mono fun _ => linksAfter_of_link rfl) fun _ => id

include inward hplaced

theorem putsIn_hardLink {m : Member} (hm : m ∈ listing.entries) {text : String}
    (body : m.body = .hardLink text) {before : List Member} (hbefore : ∀ a ∈ before, a ∈ listing.entries)
    (name : String) : PutsIn placed dest t parts (.hardLink text)
      (listing.placeBody dest again before name (dest ++ parts) (.hardLink text)) := by
  obtain ⟨leads, aim⟩ := inward.aim hm body dest hplaced
  have named : PutsIn placed dest t parts (.hardLink text)
      (change (dest ++ parts) (·.addName (target dest text) (dest ++ parts))) :=
    .of_inside (.change fun _ _ inside named => inside.addName anchored way aim (leads ▸ named))
  -- what takes the place of a hard link is no link
  have instead : ∀ found others, findLast (Path.ofText text) before = some (found, others) →
      PutsIn placed dest t parts (.hardLink text) (again others found) := by
    intro found others h
    obtain ⟨mem, among, -⟩ := findLast_found h
    have noLink := inward.no_link_of_found hm body hbefore h
    exact (hagain others found (hbefore found mem) fun a ha => hbefore a (among a ha)).mono
      (fun _ => id)
      (fun _ inside => inside.mono fun _ h => .inl (linksAfter_of_no_link noLink h)) fun _ => id
  refine .bind (.stands _) fun _ => .ite (.onRefusal named fun _ => ?_) ?_
  · exact leaves_substitute _ instead (PutsIn.of_inside (.pure ()))
  · exact leaves_substitute _ instead (.throw _)

theorem putsIn_body {m : Member} (hm : m ∈ listing.entries) {before : List Member}
    (hbefore : ∀ a ∈ before, a ∈ listing.entries) : PutsIn placed dest t parts m.body
      (listing.placeBody dest again before m.name (dest ++ parts) m.body) := by
  cases body : m.body with
  | file c =>
      exact .of_inside (.change fun _ _ inside written => inside.writeFile anchored way written)
  | directory =>
      refine .of_inside (.onRefusal (.change fun _ _ inside made => ?_) fun _ =>
        .ite (.pure ()) (.throw _))
      exact inside.makeDirectory anchored (.inr ⟨parts, rfl, way⟩) made
  | special => exact .of_inside (.bind (.standsItself _) fun _ => .ite (.throw _) (.pure ()))
  | link text => exact putsIn_link anchored way hagain before m.name text
  | hardLink text =>
      exact putsIn_hardLink hplaced inward anchored way hagain hm body hbefore m.name

end Again

include inward hplaced anchored way

theorem leaves_place (fuel : Nat) {m : Member} (hm : m ∈ listing.entries) {before : List Member}
    (hbefore : ∀ a ∈ before, a ∈ listing.entries) :
    PutsIn placed dest t parts m.body (listing.place dest fuel before m (dest ++ parts)) := by
  induction fuel generalizing before m with
  | zero => exact .throw _
  | succ fuel ih =>
      exact .bind (leaves_makeRoom anchored way) fun _ =>
        putsIn_body hplaced inward anchored way (fun _ _ hfound hothers => ih hfound hothers) hm hbefore

end Place

variable (inward : listing.Inward) {t : FileTree} {dest : Location} (anchored : t.Anchored dest)
include inward anchored

theorem leaves_placeAll (before : List Member) {rest : List Member}
    (own : ∀ m ∈ before ++ rest, m ∈ listing.entries)
    (apart : (before ++ rest).Pairwise fun a b => Clears a b.name ∧ Clears b a.name) :
    Leaves (Inside dest (linksOf before) t) (listing.placeAll dest before rest)
      (Inside dest (linksOf (before ++ rest)) t) (Inside dest (fun _ => True) t) := by
  induction rest generalizing before with
  | nil =>
      rw [List.append_nil]
      exact .pure _
  | cons m rest ih =>
      have hbefore : ∀ a ∈ before, a ∈ listing.entries := fun a ha => own a (List.mem_append_left _ ha)
      have hm : m ∈ listing.entries := own m (by simp)
      have down := inward.names m hm
      have way := down.open_rawParts fun a ha =>
        ((List.pairwise_append.mp apart).2.2 a ha m List.mem_cons_self).1
      have first := leaves_place hbefore inward anchored way (listing.members.length + 2) hm hbefore
      rw [List.append_cons] at own apart ⊢
      rw [placeAll, down.target_eq dest]
      refine .bind (first.mono (fun _ => id) (fun _ inside => inside.mono fun q h => ?_)
        fun _ inside => inside.mono fun _ _ => trivial) fun _ => ih _ own apart
      rcases h with ⟨a, ha, link, same⟩ | ⟨link, same⟩
      · exact ⟨a, List.mem_append_left _ ha, link, same⟩
      · exact ⟨m, List.mem_append_right _ List.mem_cons_self, link, same.trans (plainParts_rawParts _)⟩

/-- An extraction that goes down changes nothing outside of the directory. -/
theorem extract_inside (noLinks : ∀ parts target, t.entryAt? (dest ++ parts) ≠ some (.link target)) :
    Inside dest (fun _ => True) t ((listing.extract dest).run.run t).2 := by
  obtain ⟨apart, -, lastApart⟩ := List.pairwise_append.mp inward.apart
  have members : ∀ a ∈ listing.members, a ∈ listing.entries := fun a ha => List.mem_append_left _ ha
  have all : ∀ links t', Inside dest links t t' → Inside dest (fun _ => True) t t' :=
    fun _ _ inside => inside.mono fun _ _ => trivial
  have start : Inside dest (linksOf []) t t :=
    ⟨fun _ _ => rfl, anchored.firm dest (List.prefix_refl dest), fun parts target link =>
      absurd link (noLinks parts target)⟩
  have whole : Leaves (Inside dest (linksOf []) t) (listing.extract dest) (Inside dest (fun _ => True) t)
      (Inside dest (fun _ => True) t) := by
    refine .bind (leaves_placeAll inward anchored [] members apart) fun _ => ?_
    extract_lets ending
    have last : ∀ u, Leaves (Inside dest (fun _ => True) t) (ending u) (Inside dest (fun _ => True) t)
        (Inside dest (fun _ => True) t) := by
      intro u
      simp only [ending]
      split
      · exact .throw _
      · exact .pure _
    split
    · rename_i name kept broken
      have itself : Member.mk name (.file (.bytes kept)) ∈ listing.entries := by
        rw [entries, broken]
        exact List.mem_append_right _ (List.mem_singleton.mpr rfl)
      rw [broken] at lastApart
      have down := inward.names _ itself
      have way : Open (linksOf listing.members) (rawParts name) :=
        down.open_rawParts fun a ha => (lastApart a ha _ (List.mem_singleton.mpr rfl)).1
      have place : target dest name = dest ++ rawParts name := down.target_eq dest
      rw [place]
      exact .bind ((leaves_place members inward anchored way 1 itself (by simp)).mono (fun _ => id) (all _)
        (all _)) last
    · exact (last ()).mono (all _) (fun _ => id) fun _ => id
  have left := whole t start
  split at left <;> rename_i run <;> rw [run] <;> exact left

end Listing

end Tar

end Conveyor
