import Conveyor.Pipeline.Field
import Conveyor.Proofs.Effect
import Conveyor.Proofs.Trigger

/-!
Rule lists and the triggers that they are compiled to. A trigger lets an event pass just where the
first rule that fits the event lets it, and nothing after a rule without a condition is read.
-/

namespace Conveyor

theorem mem_kindSet {kinds : List String} (canonical : ∀ k ∈ kinds, Kind.canonical k = k)
    (kind : String) : kind ∈ kindSet kinds ↔ kind ∈ kinds := by
  rw [kindSet, List.mem_eraseDups, List.map_congr_left canonical, List.map_id']

/-- What canonical kinds decide of a canonical kind. -/
theorem TriggerRule.admits_ofKinds {allowed excluded : List String}
    (canonical : ∀ k ∈ allowed ++ excluded, Kind.canonical k = k) (kind : String) :
    (ofKinds allowed excluded).admits kind = true ↔
      kind ∉ excluded ∧ (allowed = [] ∨ kind ∈ allowed) := by
  obtain ⟨hallowed, hexcluded⟩ := List.forall_mem_append.mp canonical
  have empty : kindSet allowed = [] ↔ allowed = [] := by
    simp only [List.eq_nil_iff_forall_not_mem, mem_kindSet hallowed]
  simp [admits, ofKinds, mem_kindSet hallowed, mem_kindSet hexcluded, empty]

namespace Field

/-- The rule has no condition, or its kind and the event's have one canonical form. -/
def Rule.fits (r : Rule) (kind : String) : Bool :=
  r.kind.all fun k => Kind.canonical k == Kind.canonical kind

/-- What rules say of an event kind: the first that fits decides, and where none fits the event does
not pass. -/
def Rule.firstMatch (kind : String) (rules : List Rule) : Bool :=
  match rules.find? (·.fits kind) with
  | some r => !r.never
  | none => false

/-- The rules of a list up to the first without a condition. -/
def readRules (job : String) : List Value → Except LoadError (List Rule)
  | [] => .ok []
  | v :: rest => do
    let r ← rule job v
    if r.kind.isNone then return [r]
    return r :: (← readRules job rest)

theorem Rule.firstMatch_cons (kind : String) (r : Rule) (rules : List Rule) :
    firstMatch kind (r :: rules) = if r.fits kind then !r.never else firstMatch kind rules := by
  cases h : r.fits kind <;> simp [firstMatch, h]

theorem Rule.firstMatch_canonical (kind : String) (rules : List Rule) :
    firstMatch (Kind.canonical kind) rules = firstMatch kind rules := by
  simp [firstMatch, fits]

theorem admits_closedTrigger {allowed excluded : List String}
    (canonical : ∀ k ∈ allowed ++ excluded, Kind.canonical k = k) {kind : String}
    (hkind : kind ≠ neverKind) :
    (closedTrigger allowed excluded).admits kind = true ↔ kind ∉ excluded ∧ kind ∈ allowed := by
  cases allowed with
  | nil => simp [closedTrigger, TriggerRule.admits, hkind]
  | cons k rest =>
      have closed : closedTrigger (k :: rest) excluded = .ofKinds (k :: rest) excluded := rfl
      rw [closed, TriggerRule.admits_ofKinds canonical]
      simp

/-- The state of a compilation: kinds in canonical form, each decided in one way. -/
structure Decided (allowed excluded : List String) : Prop where
  canonical : ∀ k ∈ allowed ++ excluded, Kind.canonical k = k
  apart : ∀ k ∈ allowed, k ∉ excluded

namespace Decided

variable {allowed excluded : List String} (decided : Decided allowed excluded)
include decided

theorem allow {k : String} (hk : Kind.canonical k = k) (new : k ∉ excluded) :
    Decided (allowed ++ [k]) excluded := by
  refine ⟨fun n hn => ?_, fun n hn => ?_⟩
  · rw [List.append_assoc, List.mem_append, List.singleton_append, List.mem_cons] at hn
    rcases hn with hn | rfl | hn
    · exact decided.canonical n (List.mem_append_left _ hn)
    · exact hk
    · exact decided.canonical n (List.mem_append_right _ hn)
  · rcases List.mem_append.mp hn with hn | hn
    · exact decided.apart n hn
    · exact List.mem_singleton.mp hn ▸ new

theorem exclude {k : String} (hk : Kind.canonical k = k) (new : k ∉ allowed) :
    Decided allowed (excluded ++ [k]) := by
  refine ⟨fun n hn => ?_, fun n hn hmem => ?_⟩
  · rw [← List.append_assoc, List.mem_append, List.mem_singleton] at hn
    rcases hn with hn | rfl
    · exact decided.canonical n hn
    · exact hk
  · rcases List.mem_append.mp hmem with hmem | hmem
    · exact decided.apart n hn hmem
    · exact new (List.mem_singleton.mp hmem ▸ hn)

end Decided

/-- What is decided of a kind, by the kinds so far or else by the rules that are left. -/
def Passes (allowed excluded : List String) (rules : List Rule) (kind : String) : Prop :=
  kind ∉ excluded ∧ (kind ∈ allowed ∨ Rule.firstMatch kind rules = true)

/-- A trigger does what the kinds so far and the rules that are left decide. -/
def Realises (trigger : TriggerRule) (allowed excluded : List String) (rules : List Rule) : Prop :=
  ∀ kind, Kind.canonical kind = kind → kind ≠ neverKind →
    (trigger.admits kind = true ↔ Passes allowed excluded rules kind)

/-- A trigger lets the reserved kind pass where that is decided, and where nothing passes. -/
def Reserves (trigger : TriggerRule) (allowed excluded : List String) (rules : List Rule) : Prop :=
  trigger.admits neverKind = true ↔ Passes allowed excluded rules neverKind ∨
    ∀ kind, Kind.canonical kind = kind → ¬ Passes allowed excluded rules kind

theorem canonical_neverKind : Kind.canonical neverKind = neverKind := by decide +kernel

section Steps

variable {allowed excluded allowed' excluded' : List String} {rules rules' : List Rule}
  {trigger : TriggerRule}

theorem realises_closed (decided : Decided allowed excluded)
    (out : ∀ kind, Rule.firstMatch kind rules = false) :
    Realises (closedTrigger allowed excluded) allowed excluded rules := by
  intro kind _ hkind
  rw [admits_closedTrigger decided.canonical hkind, Passes, out]
  simp

theorem realises_open (decided : Decided allowed excluded)
    (pass : ∀ kind, Rule.firstMatch kind rules = true) :
    Realises (.ofKinds [] excluded) allowed excluded rules := by
  intro kind _ _
  rw [TriggerRule.admits_ofKinds fun k hk => decided.canonical k (List.mem_append_right _ hk), Passes,
    pass]
  simp

theorem reserves_closed (decided : Decided allowed excluded)
    (out : ∀ kind, Rule.firstMatch kind rules = false) :
    Reserves (closedTrigger allowed excluded) allowed excluded rules := by
  unfold Reserves Passes
  simp only [out, Bool.false_eq_true, or_false]
  cases allowed with
  | nil => simp [closedTrigger, TriggerRule.admits]
  | cons k rest =>
      have closed : closedTrigger (k :: rest) excluded = .ofKinds (k :: rest) excluded := rfl
      have passes := decided.apart k List.mem_cons_self
      have own := decided.canonical k (List.mem_append_left _ List.mem_cons_self)
      rw [closed, TriggerRule.admits_ofKinds decided.canonical]
      constructor
      · rintro ⟨kept, empty | named⟩
        · cases empty
        · exact .inl ⟨kept, named⟩
      · rintro (⟨kept, named⟩ | nothing)
        · exact ⟨kept, .inr named⟩
        · exact absurd ⟨passes, List.mem_cons_self⟩ (nothing k own)

theorem reserves_open (decided : Decided allowed excluded)
    (pass : ∀ kind, Rule.firstMatch kind rules = true) :
    Reserves (.ofKinds [] excluded) allowed excluded rules := by
  have excludedOwn : ∀ k ∈ [] ++ excluded, Kind.canonical k = k := fun k hk =>
    decided.canonical k (List.mem_append_right _ hk)
  unfold Reserves Passes
  simp only [pass, or_true, and_true]
  rw [TriggerRule.admits_ofKinds excludedOwn]
  constructor
  · exact fun h => .inl h.1
  · rintro (kept | nothing)
    · exact ⟨kept, .inl rfl⟩
    · obtain ⟨other, own, fresh⟩ := Kind.exists_canonical_notMem excluded
      exact absurd fresh (nothing other own)

variable (same : ∀ kind, Kind.canonical kind = kind →
  (Passes allowed excluded rules kind ↔ Passes allowed' excluded' rules' kind))
include same

theorem Realises.congr (h : Realises trigger allowed' excluded' rules') :
    Realises trigger allowed excluded rules := by
  intro kind hkind hne
  rw [same kind hkind, h kind hkind hne]

theorem Reserves.congr (h : Reserves trigger allowed' excluded' rules') :
    Reserves trigger allowed excluded rules := by
  have others : (∀ kind, Kind.canonical kind = kind → ¬ Passes allowed excluded rules kind) ↔
      ∀ kind, Kind.canonical kind = kind → ¬ Passes allowed' excluded' rules' kind :=
    forall₂_congr fun kind hkind => not_congr (same kind hkind)
  rw [Reserves, same neverKind canonical_neverKind, others]
  exact h

end Steps

section Step

variable {allowed excluded : List String} {rules : List Rule} {k kind : String} {never : Bool}

theorem fits_named (hkind : Kind.canonical kind = kind) :
    Rule.fits ⟨some k, never⟩ kind = true ↔ Kind.canonical k = kind := by
  simp [Rule.fits, hkind]

theorem passes_known (known : Kind.canonical k ∈ allowed ∨ Kind.canonical k ∈ excluded)
    (hkind : Kind.canonical kind = kind) :
    Passes allowed excluded (⟨some k, never⟩ :: rules) kind ↔ Passes allowed excluded rules kind := by
  rw [Passes, Passes, Rule.firstMatch_cons]
  by_cases same : Kind.canonical k = kind
  · rw [same] at known
    rcases known with known | known <;> simp [known]
  · rw [if_neg (mt (fits_named hkind).mp same)]

theorem passes_excluded (new : Kind.canonical k ∉ allowed) (hkind : Kind.canonical kind = kind) :
    Passes allowed excluded (⟨some k, true⟩ :: rules) kind ↔
      Passes allowed (excluded ++ [Kind.canonical k]) rules kind := by
  rw [Passes, Passes, Rule.firstMatch_cons]
  by_cases same : Kind.canonical k = kind
  · rw [same] at new
    simp [(fits_named hkind).mpr same, same, new]
  · rw [if_neg (mt (fits_named hkind).mp same)]
    simp [Ne.symm same]

theorem passes_allowed (new : Kind.canonical k ∉ excluded) (hkind : Kind.canonical kind = kind) :
    Passes allowed excluded (⟨some k, false⟩ :: rules) kind ↔
      Passes (allowed ++ [Kind.canonical k]) excluded rules kind := by
  rw [Passes, Passes, Rule.firstMatch_cons]
  by_cases same : Kind.canonical k = kind
  · rw [same] at new
    simp [(fits_named hkind).mpr same, same, new]
  · rw [if_neg (mt (fits_named hkind).mp same)]
    simp [Ne.symm same]

end Step

/-- What becomes of rules: they cannot be read and are refused as they are read, or the trigger does
what they decide. -/
inductive Compiled (allowed excluded : List String) :
    Except LoadError (List Rule) → Except LoadError TriggerRule → Prop
  | refused (e : LoadError) : Compiled allowed excluded (.error e) (.error e)
  | realised {rules : List Rule} {trigger : TriggerRule}
      (h : Realises trigger allowed excluded rules) (reserves : Reserves trigger allowed excluded rules) :
      Compiled allowed excluded (.ok rules) (.ok trigger)

/-- The induction is on the rules that are left; the kinds so far carry what was decided. -/
theorem compiled_compileRules (job : String) {allowed excluded : List String}
    (decided : Decided allowed excluded) (items : List Value) :
    Compiled allowed excluded (readRules job items) (compileRules job allowed excluded items) := by
  induction items generalizing allowed excluded with
  | nil => exact .realised (realises_closed decided fun _ => rfl) (reserves_closed decided fun _ => rfl)
  | cons v rest ih =>
      rw [readRules, compileRules]
      match rule job v with
      | .error e => exact .refused e
      | .ok ⟨none, true⟩ =>
          exact .realised (realises_closed decided fun _ => rfl) (reserves_closed decided fun _ => rfl)
      | .ok ⟨none, false⟩ =>
          exact .realised (realises_open decided fun _ => rfl) (reserves_open decided fun _ => rfl)
      | .ok ⟨some k, never⟩ =>
          have canonical := Kind.canonical_canonical k
          -- one more rule in front of those that the induction speaks of
          have before : ∀ {allowed' excluded' : List String}, Decided allowed' excluded' →
              (∀ {rules kind}, Kind.canonical kind = kind →
                (Passes allowed excluded (⟨some k, never⟩ :: rules) kind ↔
                  Passes allowed' excluded' rules kind)) →
              Compiled allowed excluded (do return ⟨some k, never⟩ :: (← readRules job rest))
                (compileRules job allowed' excluded' rest) := by
            intro allowed' excluded' decided' step
            have compiled := ih decided'
            generalize readRules job rest = read, compileRules job allowed' excluded' rest = made
              at compiled
            cases compiled with
            | refused e => exact .refused e
            | realised h reserves => exact .realised (h.congr fun _ => step) (reserves.congr fun _ => step)
          change Compiled allowed excluded (do return ⟨some k, never⟩ :: (← readRules job rest))
            (if allowed.contains (Kind.canonical k) || excluded.contains (Kind.canonical k) then
              compileRules job allowed excluded rest
            else if never then compileRules job allowed (excluded ++ [Kind.canonical k]) rest
            else compileRules job (allowed ++ [Kind.canonical k]) excluded rest)
          simp only [List.contains_eq_mem, Bool.or_eq_true, decide_eq_true_eq]
          split
          · rename_i known
            exact before decided (passes_known known)
          · rename_i new
            obtain ⟨notAllowed, notExcluded⟩ := not_or.mp new
            cases never with
            | true => exact before (decided.exclude canonical notAllowed) (passes_excluded notAllowed)
            | false => exact before (decided.allow canonical notExcluded) (passes_allowed notExcluded)

/-- What stands after a rule without a condition is not looked at. -/
theorem compileRules_append {job : String} {v : Value} {r : Rule} (read : rule job v = .ok r)
    (open_ : r.kind = none) (before after after' : List Value) (allowed excluded : List String) :
    compileRules job allowed excluded (before ++ v :: after) =
      compileRules job allowed excluded (before ++ v :: after') := by
  induction before generalizing allowed excluded with
  | nil =>
      obtain ⟨kind, never⟩ := r
      cases open_
      rw [List.nil_append, List.nil_append, compileRules, compileRules, read]
      cases never <;> rfl
  | cons first more ih =>
      rw [List.cons_append, List.cons_append, compileRules, compileRules]
      match rule job first with
      | .error e => rfl
      | .ok ⟨none, true⟩ | .ok ⟨none, false⟩ => rfl
      | .ok ⟨some k, never⟩ => simp only [bind, Except.bind, ih]

/-- Rules are refused just where they cannot be read, with the same complaint. A job with the trigger
that they are compiled to runs for an event just where the first rule that fits the event lets it, and
what stands after a rule without a condition has no influence at all. -/
theorem compiled_rules_first_match (job : String) (items : List Value) :
    (∀ e, compileRules job [] [] items = .error e ↔ readRules job items = .error e) ∧
    (∀ trigger, compileRules job [] [] items = .ok trigger →
      ∃ rules, readRules job items = .ok rules ∧
        ∀ (j : Job) (event : Event), j.trigger = some trigger →
          Kind.canonical event.kind ≠ neverKind →
          j.isEligible event = Rule.firstMatch event.kind rules) ∧
    ∀ before v r after after', items = before ++ v :: after → rule job v = .ok r → r.kind = none →
      compileRules job [] [] (before ++ v :: after') = compileRules job [] [] items := by
  have compiled := compiled_compileRules job (⟨by simp, by simp⟩ : Decided [] []) items
  refine ⟨?_, ?_, ?_⟩
  · intro e
    generalize readRules job items = read, compileRules job [] [] items = made at compiled
    cases compiled <;> simp
  · intro trigger accepted
    rw [accepted] at compiled
    generalize readRules job items = read at compiled
    cases compiled with
    | @realised rules _ h =>
        refine ⟨rules, rfl, fun j event carries hne => ?_⟩
        have passes := h _ (Kind.canonical_canonical event.kind) hne
        rw [Bool.eq_iff_iff, Job.isEligible, carries, Option.all_some, passes, Passes,
          Rule.firstMatch_canonical]
        simp
  · rintro before v r after after' rfl read none
    exact compileRules_append read none before after' after [] []

/-- A rule for one event source. -/
def sourceRule (kind : String) (rest : List (Scalar × Value)) : Value :=
  .mapping ((.str "if", .str ("$CI_PIPELINE_SOURCE == '" ++ kind ++ "'")) :: rest)

/-- Merge requests are excluded, pushes pass, and so does no other event: the last rules, one of them
malformed, stand after the one that excludes everything. -/
def sampleRules : List Value := [
  sourceRule "merge-requests" [(.str "when", .str "never")],
  sourceRule " Pushes" [],
  sourceRule "MR" [],
  .mapping [(.str "when", .str "never")],
  .mapping [],
  .int 5]

theorem compiled_rules_of_sample : ∃ trigger rules,
    compileRules "j" [] [] sampleRules = .ok trigger ∧ readRules "j" sampleRules = .ok rules ∧
      (∀ (j : Job), j.trigger = some trigger → j.isEligible ⟨"branches", none, none⟩ = true ∧
        j.isEligible ⟨"merge_request_event", none, none⟩ = false) ∧
      compileRules "j" [] [] (sampleRules.take 4) = .ok trigger := by
  obtain ⟨-, accepted, tail⟩ := compiled_rules_first_match "j" sampleRules
  have short : compileRules "j" [] [] (sampleRules.take 4) = compileRules "j" [] [] sampleRules :=
    tail (sampleRules.take 3) _ ⟨none, true⟩ _ [] rfl (by rfl) rfl
  obtain ⟨trigger, made⟩ : ∃ trigger, compileRules "j" [] [] sampleRules = .ok trigger := by
    have made : (compileRules "j" [] [] sampleRules).toOption.isSome := by decide +kernel
    generalize compileRules "j" [] [] sampleRules = result at made
    cases result with
    | error e => simp [Except.toOption] at made
    | ok trigger => exact ⟨trigger, rfl⟩
  obtain ⟨rules, read, decides⟩ := accepted trigger made
  have first : ∀ kind, (readRules "j" sampleRules).toOption.map (Rule.firstMatch kind) =
      some (Rule.firstMatch kind rules) := fun kind => by rw [read]; rfl
  have pass : Rule.firstMatch "branches" rules = true :=
    Option.some.inj ((first _).symm.trans (by decide +kernel))
  have out : Rule.firstMatch "merge_request_event" rules = false :=
    Option.some.inj ((first _).symm.trans (by decide +kernel))
  refine ⟨trigger, rules, made, read, fun j carries => ⟨?_, ?_⟩, short.trans made⟩
  · rw [decides j _ carries (by decide +kernel), pass]
  · rw [decides j _ carries (by decide +kernel), out]

end Field

end Conveyor
