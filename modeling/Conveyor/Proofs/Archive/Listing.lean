import Conveyor.Archive.Listing
import Conveyor.Proofs.Effect

/-!
What stops the reading of a listing. A fault stops it only where the compressed stream breaks off or is
damaged, and then it is the fault of that ending.
-/

namespace Conveyor.Tar

theorem readAt_error {s : Stream} {start n : Nat} {e : StreamEnding}
    (h : readAt s start n = .error e) : e = s.ending := by
  unfold readAt at h
  split at h
  · cases h
  · cases h
    rfl

/-- The fault of a stream that breaks off or is damaged. -/
inductive StreamFault : StreamEnding → Fault → Prop
  | cutShort : StreamFault .cutShort .archiveCutShort
  | damaged (d : Inflate.Damage) :
      StreamFault (.damaged d) (.archiveDamaged ("Error -3 while decompressing data: " ++ d.text))

theorem streamFault_of_ofEnding {e : StreamEnding} {f : Fault}
    (h : ReadFailure.ofEnding e = .fault f) : StreamFault e f := by
  cases e with
  | finished | malformed => cases h
  | cutShort =>
      cases h
      exact .cutShort
  | damaged d =>
      cases h
      exact .damaged d

theorem streamFault_of_ofHeaderEnding {e : StreamEnding} {f : Fault}
    (h : ReadFailure.ofHeaderEnding e = .fault f) : StreamFault e f := by
  cases e with
  | cutShort =>
      cases h
      exact .cutShort
  | finished | malformed | damaged d => cases h

theorem following_stream {found : Except MemberFault (Found × Attributes)} {e : StreamEnding}
    (h : following found = .error (.stream e)) : found = .error (.stream e) := by
  unfold following at h
  split at h
  · cases h
  · exact h

theorem findMember_stream {s : Stream} {fuel : Nat} {common : Attributes} {start : Nat}
    {e : StreamEnding} (h : findMember s fuel common start = .error (.stream e)) : e = s.ending := by
  induction fuel generalizing common start with
  | zero => cases h
  | succ fuel ih =>
      rw [findMember] at h
      split at h
      · rename_i e' hread
        cases h
        exact readAt_error hread
      · split at h
        · cases h
        · rename_i header _
          dsimp only at h
          split at h
          · split at h
            · rename_i e' hread
              cases h
              exact readAt_error hread
            · rcases error_of_bind_error h with h | ⟨found, -, h⟩
              · exact ih (following_stream h)
              · cases h
          · split at h
            · split at h
              · rename_i e' hread
                cases h
                exact readAt_error hread
              · split at h
                · cases h
                · rcases error_of_bind_error h with h | ⟨found, -, h⟩
                  · exact ih (following_stream h)
                  · split at h
                    · cases h
                    · split at h <;> cases h
            · cases h

theorem listFrom_failure {s : Stream} {isFirst : Bool} {fuel : Nat} {common : Attributes} {start : Nat}
    {f : Fault} (h : (listFrom s isFirst fuel common start).failure = some (.fault f)) :
    StreamFault s.ending f := by
  induction fuel generalizing isFirst common start with
  | zero => cases h
  | succ fuel ih =>
      rw [listFrom] at h
      split at h
      · exact streamFault_of_ofEnding (Option.some.inj h)
      · split at h
        · cases h
        · split at h <;> cases h
        · cases h
        · rename_i e hfind
          rw [findMember_stream hfind] at h
          exact streamFault_of_ofHeaderEnding (Option.some.inj h)
        · dsimp only at h
          split at h
          · exact streamFault_of_ofEnding (Option.some.inj h)
          · exact ih h

end Conveyor.Tar
