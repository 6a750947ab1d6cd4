import Conveyor.Proofs.Archive.Room

/-!
How an extraction can fail. Apart from refusals of the file system it fails by what stops the reading
of the archive, by a name that no path may hold, by a link without a target, or by a search for the
target of a link that never ends.
-/

namespace Conveyor.Tar

/-- An extraction fails in some ways only. -/
def FailsIn (P : ExtractFailure → Prop) {α : Type} (x : Extraction α) : Prop :=
  ∀ t f t', x.run.run t = (.error f, t') → P f

namespace FailsIn

variable {P : ExtractFailure → Prop} {α β : Type}

theorem pure (a : α) : FailsIn P (Pure.pure a : Extraction α) := by
  intro t f t' h
  cases h

theorem throw {f : ExtractFailure} (h : P f) : FailsIn P (MonadExcept.throw f : Extraction α) := by
  intro t g t' hrun
  cases hrun
  exact h

theorem bind {x : Extraction α} {k : α → Extraction β} (hx : FailsIn P x)
    (hk : ∀ a, FailsIn P (k a)) : FailsIn P (x >>= k) := by
  intro t f t' h
  match hrun : x.run.run t with
  | (.ok a, t₁) =>
      rw [run_bind_ok hrun] at h
      exact hk a t₁ f t' h
  | (.error g, t₁) =>
      rw [run_bind_error hrun] at h
      cases h
      exact hx t _ _ hrun

theorem ite {c : Prop} [Decidable c] {x y : Extraction α} (hx : FailsIn P x) (hy : FailsIn P y) :
    FailsIn P (if c then x else y) := by
  split
  · exact hx
  · exact hy

theorem change (refused : ∀ e, P (.refused e)) (l : Location)
    (f : FileTree → Except Refusal FileTree) : FailsIn P (change l f) := by
  intro t g t' h
  cases hf : f t with
  | ok t₁ =>
      rw [run_change_ok hf] at h
      cases h
  | error r =>
      rw [run_change_error hf] at h
      cases h
      exact refused _

theorem onRefusal {work : Extraction Unit} {otherwise : FileError → Extraction Unit}
    (hwork : FailsIn P work) (hotherwise : ∀ e, FailsIn P (otherwise e)) :
    FailsIn P (onRefusal work otherwise) := by
  intro t f t' h
  cases hrun : work.run.run t with | mk answer t₁ =>
  by_cases refused : ∃ e, answer = .error (.refused e)
  · obtain ⟨e, rfl⟩ := refused
    rw [run_onRefusal_refused hrun] at h
    exact hotherwise e t₁ f t' h
  · rw [run_onRefusal_other hrun fun e he => refused ⟨e, he⟩, ← hrun] at h
    exact hwork t f t' h

theorem stands (l : Location) : FailsIn P (stands l) := by
  intro t f t' h
  cases h

theorem standsItself (l : Location) : FailsIn P (standsItself l) := by
  intro t f t' h
  unfold Tar.standsItself at h
  rw [run_bind_ok (run_get t)] at h
  split at h <;> cases h

end FailsIn

theorem failsIn_makeMissing {P : ExtractFailure → Prop} (refused : ∀ e, P (.refused e))
    (l : Location) : FailsIn P (makeMissing l) := by
  have last := FailsIn.change refused l (·.makeDirectory l)
  rw [makeMissing]
  split
  · rename_i habove
    have shorter : l.dropLast.length < l.length := by
      cases l with
      | nil => simp at habove
      | cons c rest => simp
    refine .bind (.stands _) fun there => .ite ?_ last
    refine .bind (.onRefusal (failsIn_makeMissing refused _) fun e => ?_) fun _ => ?_
    · exact .ite (.pure _) (.throw (refused e))
    · exact .ite (.pure _) last
  · exact last
termination_by l.length

/-- What may stop the extraction of a listing. -/
inductive Listing.Expected (listing : Listing) : ExtractFailure → Prop
  | refused (e : FileError) : Expected listing (.refused e)
  | listed {r : ReadFailure} (h : listing.failure = some r) : Expected listing (.reading r)
  | endless : Expected listing endlessSearch
  | nulInName : Expected listing .nulInName
  | noSuchMember (name : String) : Expected listing (.noSuchMember name)

namespace Listing

variable {listing : Listing}

theorem failsIn_search (p : Path) (among : List Member) :
    FailsIn listing.Expected (listing.search p among) := by
  unfold search
  split
  · rename_i f hf
    exact .throw (.listed hf)
  · exact .pure _

theorem failsIn_substitute {again : List Member → Member → Extraction Unit} {otherwise : Extraction Unit}
    (hagain : ∀ before m, FailsIn listing.Expected (again before m))
    (hotherwise : FailsIn listing.Expected otherwise) (p : Path) (among : List Member) :
    FailsIn listing.Expected (listing.substitute again p among otherwise) := by
  refine .bind (failsIn_search p among) fun found => ?_
  match found with
  | some (found, before) => exact hagain before found
  | none => exact hotherwise

theorem failsIn_makeRoom (l : Location) : FailsIn listing.Expected (makeRoom l) := by
  refine .ite (.bind (.throw .nulInName) fun _ => ?_) ?_
  all_goals exact .bind (.stands _) fun _ => .ite (failsIn_makeMissing .refused _) (.pure _)

theorem failsIn_placeBody {again : List Member → Member → Extraction Unit}
    (hagain : ∀ before m, FailsIn listing.Expected (again before m)) (root : Location)
    (before : List Member) (name : String) (l : Location) (body : MemberBody) :
    FailsIn listing.Expected (listing.placeBody root again before name l body) := by
  have instead : ∀ otherwise, FailsIn listing.Expected otherwise → ∀ p among,
      FailsIn listing.Expected (listing.substitute again p among otherwise) :=
    fun otherwise h => failsIn_substitute hagain h
  cases body with
  | file c => exact .change .refused l _
  | directory =>
      exact .onRefusal (.change .refused l _) fun e => .ite (.pure _) (.throw (.refused e))
  | special => exact .bind (.standsItself l) fun _ => .ite (.throw (.refused _)) (.pure _)
  | link text =>
      refine .onRefusal (.bind (.standsItself l) fun _ => .ite (.bind ?_ fun _ => ?_) ?_) fun _ => ?_
      · exact .change .refused l _
      · exact .change .refused l _
      · exact .change .refused l _
      · exact instead _ (.pure _) _ _
  | hardLink text =>
      refine .bind (.stands _) fun _ => .ite (.onRefusal (.change .refused l _) fun _ => ?_) ?_
      · exact instead _ (.pure _) _ _
      · exact instead _ (.throw (.noSuchMember text)) _ _

theorem failsIn_place (root : Location) (fuel : Nat) (before : List Member) (m : Member)
    (l : Location) : FailsIn listing.Expected (listing.place root fuel before m l) := by
  induction fuel generalizing before m with
  | zero => exact .throw .endless
  | succ fuel ih =>
      exact .bind (failsIn_makeRoom l) fun _ => failsIn_placeBody ih root before m.name l m.body

theorem failsIn_placeAll (root : Location) (before rest : List Member) :
    FailsIn listing.Expected (listing.placeAll root before rest) := by
  induction rest generalizing before with
  | nil => exact .pure _
  | cons m rest ih => exact .bind (failsIn_place root _ before m _) fun _ => ih _

theorem failsIn_extract (root : Location) : FailsIn listing.Expected (listing.extract root) := by
  refine .bind (failsIn_placeAll root [] _) fun _ => ?_
  extract_lets ending
  have hending : ∀ u, FailsIn listing.Expected (ending u) := by
    intro u
    simp only [ending]
    split
    · rename_i f hf
      exact .throw (.listed hf)
    · exact .pure _
  split
  · exact .bind (failsIn_place root 1 [] _ _) hending
  · exact hending ()

end Listing

end Conveyor.Tar
