import Conveyor.CommandLine.Request
import Conveyor.Environment
import Conveyor.Proofs.Pipeline.Rules
import Conveyor.Proofs.Table

/-!
Event kinds on their way out of a run and back. A run exports the kind of its event under a name of the
same canonical form, so a run inside of it selects the same jobs; and an entry of a rule list that
compares the event source with that name decides the events of this form and no others.
-/

namespace Conveyor

open Conveyor.CommandLine Conveyor.Text

/-- What an event does with each job hangs on the canonical form of its kind. -/
theorem Pipeline.plan_congr {event event' : Event}
    (same : Kind.canonical event.kind = Kind.canonical event'.kind) (p : Pipeline) :
    p.plan event = p.plan event' := by
  have verdict : ∀ j : Job, j.isEligible event = j.isEligible event' := fun j => by
    rw [Job.isEligible, Job.isEligible, same]
  have reason : ∀ j : Job, j.planReason event = j.planReason event' := fun j => by
    rw [Job.planReason, Job.planReason, same, verdict]
  simp only [Pipeline.plan, verdict, reason]

/-- A job sees the kind of the event under its exported name. -/
theorem Environment.get?_ofRun (inherited : Environment) (project kind cacheRoot : String)
    {cacheVariable : String} (apart : cacheVariable ≠ Request.eventVariable) (sha ref : Option String) :
    (Environment.ofRun inherited project kind cacheVariable cacheRoot sha ref).get? Request.eventVariable =
      some (Kind.exported kind) := by
  have later : ∀ (name : String) (value : Option String), name ≠ Request.eventVariable →
      Request.eventVariable ∉
        ((value.filter fun v => !v.isEmpty).toList.map fun v => (name, v)).map (·.1) := by
    intro name value other h
    simp only [List.map_map, List.mem_map, Function.comp_apply] at h
    obtain ⟨v, -, same⟩ := h
    exact other same
  rw [ofRun, Table.get?_putAll_of_notMem]
  · rw [Request.eventVariable] at apart
    simp [Table.putAll, Table.get?_put, apart, Request.eventVariable]
  · rw [List.map_append, List.mem_append, not_or]
    exact ⟨later _ sha (by decide), later _ ref (by decide)⟩

namespace Field

def IsQuoteMark (c : Char) : Prop := c = '\x22' ∨ c = '\x27'

/-- A condition that compares the event source with a kind in quotes, with white space between the
parts. -/
inductive Compares (kind : List Char) : List Char → Prop
  | mk {before gap gap' after : List Char} {opening closing : Char}
      (blank : ∀ c ∈ before ++ gap ++ gap' ++ after, isBlank c = true)
      (opens : IsQuoteMark opening) (closes : IsQuoteMark closing) :
      Compares kind (before ++ ("$CI_PIPELINE_SOURCE".toList ++ (gap ++ '=' :: '=' :: (gap' ++
        opening :: (kind ++ closing :: after)))))

theorem dropWhile_isBlank {cs rest : List Char} (blank : ∀ c ∈ cs, isBlank c = true) {c : Char}
    (stop : isBlank c = false) : (cs ++ c :: rest).dropWhile isBlank = c :: rest := by
  rw [List.dropWhile_append_of_pos blank, List.dropWhile_cons_of_neg (by simp [stop])]

theorem sourceCondition?_of_compares {kind text : String} (h : Compares kind.toList text.toList)
    (filled : kind ≠ "") (unquoted : ∀ c ∈ kind.toList, ¬ IsQuoteMark c) :
    sourceCondition? text = some kind := by
  generalize written : text.toList = cs at h
  cases h with
  | @mk before gap gap' after opening closing blank opens closes =>
      simp only [List.forall_mem_append] at blank
      obtain ⟨⟨⟨hbefore, hgap⟩, hgap'⟩, hafter⟩ := blank
      have mark : ∀ c, (decide (c = '\x22') || decide (c = '\x27')) = true ↔ IsQuoteMark c := by
        simp [IsQuoteMark]
      have seen : ∀ c, IsQuoteMark c → isBlank c = false := by
        rintro c (rfl | rfl) <;> decide
      have start : text.toList.dropWhile isBlank = "$CI_PIPELINE_SOURCE".toList ++
          (gap ++ '=' :: '=' :: (gap' ++ opening :: (kind.toList ++ closing :: after))) := by
        rw [written]
        exact dropWhile_isBlank hbefore (by decide)
      have name : (kind.toList ++ closing :: after).takeWhile
          (fun c => !(decide (c = '\x22') || decide (c = '\x27'))) = kind.toList := by
        rw [List.takeWhile_append_of_pos (by simpa [IsQuoteMark] using unquoted),
          List.takeWhile_cons_of_neg (by rw [(mark closing).mpr closes]; decide), List.append_nil]
      have kept : kind.toList.isEmpty = false := by simpa using filled
      simp only [sourceCondition?, start, List.isPrefixOf_iff_prefix, List.prefix_append, if_true,
        List.drop_left, dropWhile_isBlank hgap (by decide : isBlank '=' = false),
        dropWhile_isBlank hgap' (seen opening opens), name, kept, (mark opening).mpr opens,
        (mark closing).mpr closes, List.all_eq_true.mpr hafter, Bool.not_false, Bool.and_self,
        String.ofList_toList]

/-- An entry whose condition compares the event source with a kind is read as a rule for it. -/
theorem rule_of_compares {entries : Fields} {kind text : String} (h : Compares kind.toList text.toList)
    (condition : entries.field "if" = .str text) (filled : kind ≠ "")
    (unquoted : ∀ c ∈ kind.toList, ¬ IsQuoteMark c) (job : String) :
    ∃ never, rule job (.mapping entries) = .ok ⟨some kind, never⟩ ∧
      (never = true ↔ entries.field "when" = .str "never") := by
  have source : sourceCondition? (Value.scalar (.str text)).text = some kind :=
    sourceCondition?_of_compares h filled unquoted
  rw [rule]
  simp only [condition, source]
  refine ⟨_, rfl, ?_⟩
  split
  · rename_i s written
    rw [written]
    simp [Value.str]
  · rename_i other
    constructor
    · intro h
      cases h
    · exact fun never => absurd never (other "never")

/-- No entry so far is for an event of the kind. -/
def Undecided (job : String) (before : List Value) (kind : String) : Prop :=
  ∀ v ∈ before, ∀ r, rule job v = .ok r → r.fits kind = false

section Read

variable {job : String} {v : Value} {k : String} {never : Bool}

theorem readRules_refused {e : LoadError} (h : rule job v = .error e) (rest : List Value) :
    readRules job (v :: rest) = .error e := by
  rw [readRules, h]
  rfl

theorem readRules_open (h : rule job v = .ok ⟨none, never⟩) (rest : List Value) :
    readRules job (v :: rest) = .ok [⟨none, never⟩] := by
  rw [readRules, h]
  rfl

theorem readRules_named (h : rule job v = .ok ⟨some k, never⟩) (rest : List Value) :
    readRules job (v :: rest) = (readRules job rest).map (⟨some k, never⟩ :: ·) := by
  rw [readRules, h]
  cases readRules job rest <;> rfl

/-- One more rule for a kind stands before the rules that decide where those before it do not. -/
theorem readRules_insert (read : rule job v = .ok ⟨some k, never⟩) (before after : List Value) :
    (∀ e, readRules job (before ++ after) = .error e → readRules job (before ++ v :: after) = .error e) ∧
    ∀ rest, readRules job (before ++ after) = .ok rest →
      ∃ rules, readRules job (before ++ v :: after) = .ok rules ∧
        ∀ kind, Undecided job before kind → Rule.firstMatch kind rules =
          if Kind.canonical kind = Kind.canonical k then !never else Rule.firstMatch kind rest := by
  induction before with
  | nil =>
      rw [List.nil_append, List.nil_append, readRules_named read]
      refine ⟨fun e refused => by rw [refused]; rfl, fun rest all => ?_⟩
      rw [all]
      refine ⟨_, rfl, fun kind _ => ?_⟩
      rw [Rule.firstMatch_cons, Rule.fits, Option.all_some]
      simp only [beq_iff_eq, @eq_comm _ (Kind.canonical k)]
  | cons u more ih =>
      rw [List.cons_append, List.cons_append]
      cases first : rule job u with
      | error e =>
          rw [readRules_refused first, readRules_refused first]
          exact ⟨fun _ refused => refused, fun _ all => by cases all⟩
      | ok r =>
          obtain ⟨kind, excludes⟩ := r
          cases kind with
          | none =>
              rw [readRules_open first, readRules_open first]
              refine ⟨fun _ refused => (by cases refused), ?_⟩
              refine fun rest _ => ⟨_, rfl, fun kind undecided => ?_⟩
              cases undecided u List.mem_cons_self _ first
          | some other =>
              rw [readRules_named first, readRules_named first]
              generalize readRules job (more ++ after) = without at ih ⊢
              cases without with
              | error e =>
                  rw [ih.1 e rfl]
                  exact ⟨fun _ refused => refused, fun _ all => by cases all⟩
              | ok rest =>
                  obtain ⟨rules, whole, decides⟩ := ih.2 rest rfl
                  rw [whole]
                  refine ⟨fun _ refused => (by cases refused), ?_⟩
                  refine fun _ all => ⟨_, rfl, fun kind undecided => ?_⟩
                  obtain rfl := Except.ok.inj all
                  have passes := undecided u List.mem_cons_self _ first
                  rw [Rule.firstMatch_cons, Rule.firstMatch_cons, passes]
                  exact decides kind fun w hw => undecided w (List.mem_cons_of_mem _ hw)

end Read

/-- The job runs for an event of the reserved kind, and would for no other. -/
def StartsReserved (j : Job) (e : Event) : Prop :=
  Kind.canonical e.kind = neverKind ∧
    ∀ other : Event, Kind.canonical other.kind ≠ neverKind → j.isEligible other = false

section Compiled

variable {rules : List Rule} {trigger : TriggerRule} {j : Job} (carries : j.trigger = some trigger)

theorem passes_canonical (kind : String) :
    Passes [] [] rules (Kind.canonical kind) ↔ Rule.firstMatch kind rules = true := by
  rw [Passes, Rule.firstMatch_canonical]
  simp

include carries

theorem isEligible_eq (e : Event) : j.isEligible e = trigger.admits (Kind.canonical e.kind) := by
  rw [Job.isEligible, carries, Option.all_some]

theorem isEligible_unreserved (realises : Realises trigger [] [] rules) {e : Event}
    (h : Kind.canonical e.kind ≠ neverKind) :
    j.isEligible e = true ↔ Rule.firstMatch e.kind rules = true := by
  rw [isEligible_eq carries, realises _ (Kind.canonical_canonical _) h, passes_canonical]

/-- The placeholder of rules that let nothing pass lets the reserved kind pass. -/
theorem isEligible_reserved (realises : Realises trigger [] [] rules)
    (reserves : Reserves trigger [] [] rules) {e : Event} (h : Kind.canonical e.kind = neverKind) :
    j.isEligible e = true ↔ Rule.firstMatch e.kind rules = true ∨ StartsReserved j e := by
  rw [Reserves] at reserves
  rw [isEligible_eq carries, h, reserves, ← h, passes_canonical, StartsReserved]
  refine or_congr_right' fun _ =>
    ⟨fun nothing => ⟨h, fun other unreserved => ?_⟩, fun silent kind own => ?_⟩
  · apply Bool.eq_false_iff.mpr
    intro runs
    exact nothing _ (Kind.canonical_canonical other.kind)
      ((passes_canonical _).mpr ((isEligible_unreserved carries realises unreserved).mp runs))
  · rw [← own, passes_canonical]
    by_cases same : kind = neverKind
    · rwa [same, ← h, Rule.firstMatch_canonical]
    · have unreserved : Kind.canonical (Event.mk kind none none).kind ≠ neverKind := own.symm ▸ same
      rw [← isEligible_unreserved carries realises unreserved, silent.2 _ unreserved]
      exact Bool.false_ne_true

end Compiled

theorem Compiled.refused_of {read : Except LoadError (List Rule)} {made : Except LoadError TriggerRule}
    {e : LoadError} {allowed excluded : List String} (h : Compiled allowed excluded read made)
    (refused : read = .error e) : made = .error e := by
  cases h with
  | refused e' => rw [Except.error.inj refused]
  | realised _ _ => cases refused

/-- A job with compiled rules runs where the first rule that fits lets it, and for the reserved kind also
where the rules let nothing pass. -/
theorem isEligible_iff {job : String} {items : List Value} {rules : List Rule}
    (read : readRules job items = .ok rules) : ∃ trigger, compileRules job [] [] items = .ok trigger ∧
      ∀ (j : Job) (e : Event), j.trigger = some trigger →
        (j.isEligible e = true ↔ Rule.firstMatch e.kind rules = true ∨ StartsReserved j e) := by
  have compiled := compiled_compileRules job (⟨by simp, by simp⟩ : Decided [] []) items
  rw [read] at compiled
  generalize compileRules job [] [] items = made at compiled
  cases compiled with
  | @realised _ trigger realises reserves =>
      refine ⟨trigger, rfl, fun j e carries => ?_⟩
      by_cases reserved : Kind.canonical e.kind = neverKind
      · exact isEligible_reserved carries realises reserves reserved
      · rw [isEligible_unreserved carries realises reserved, StartsReserved]
        simp [reserved]

/-- The canonical form of a kind is its own, and the form of the exported kind is the same. So a run that
reads the exported kind selects the same jobs; its environment has the kind, and its command line takes it
from there. An entry of a rule list that compares the event source with the exported kind is not refused,
and where nothing before it decides, it decides the events of this form and leaves all others to the rest of
the list. Only an event of the reserved kind also starts a job that nothing else starts. -/
theorem exported_kind_decides_its_form (kind : String) :
    Kind.canonical (Kind.canonical kind) = Kind.canonical kind ∧
    Kind.canonical (Kind.exported kind) = Kind.canonical kind ∧
    (∀ (p : Pipeline) (ref sha ref' sha' : Option String),
      p.eligibleJobs (.ofKind (Kind.exported kind) ref' sha') = p.eligibleJobs ⟨kind, ref, sha⟩) ∧
    (∀ (inherited : Environment) (project cacheVariable cacheRoot : String) (sha ref : Option String),
      cacheVariable ≠ Request.eventVariable →
      let env := Environment.ofRun inherited project kind cacheVariable cacheRoot sha ref
      env.get? Request.eventVariable = some (Kind.exported kind) ∧
      ∀ a : Arguments, a.value? .event = none → Kind.exported kind ≠ "" →
        Request.eventOf a env = Kind.exported kind) ∧
    (Kind.exported kind ≠ "" → (∀ c ∈ (Kind.exported kind).toList, ¬ IsQuoteMark c) →
      ∀ (job : String) (before : List Value) (entries : Fields) (after : List Value) (text : String),
        Compares (Kind.exported kind).toList text.toList → entries.field "if" = .str text →
        (∀ e, readRules job (before ++ after) = .error e →
          compileRules job [] [] (before ++ .mapping entries :: after) = .error e) ∧
        ∀ rest, readRules job (before ++ after) = .ok rest →
          ∃ trigger, compileRules job [] [] (before ++ .mapping entries :: after) = .ok trigger ∧
            ∀ (j : Job) (event : Event), j.trigger = some trigger → Undecided job before event.kind →
              (j.isEligible event = true ↔
                (if Kind.canonical event.kind = Kind.canonical kind then
                  entries.field "when" ≠ .str "never"
                else Rule.firstMatch event.kind rest = true) ∨ StartsReserved j event)) := by
  refine ⟨Kind.canonical_canonical kind, Kind.canonical_exported kind, ?_, ?_, ?_⟩
  · intro p ref sha ref' sha'
    rw [Pipeline.eligibleJobs, Pipeline.eligibleJobs, Pipeline.plan_congr]
    rw [Event.ofKind, Kind.canonical_canonical, Kind.canonical_exported]
  · intro inherited project cacheVariable cacheRoot sha ref apart
    have bound := Environment.get?_ofRun inherited project kind cacheRoot apart sha ref
    refine ⟨bound, fun a silent filled => ?_⟩
    rw [Request.eventOf, silent, bound, given?, Option.filter_some_pos (by simpa using filled)]
    rfl
  · intro filled unquoted job before entries after text compares condition
    obtain ⟨never, read, excludes⟩ := rule_of_compares compares condition filled unquoted job
    obtain ⟨refuses, inserts⟩ := readRules_insert read before after
    constructor
    · intro e refused
      exact (compiled_compileRules job (⟨by simp, by simp⟩ : Decided [] []) _).refused_of (refuses e refused)
    · intro rest all
      obtain ⟨rules, whole, decides⟩ := inserts rest all
      obtain ⟨trigger, made, eligible⟩ := isEligible_iff whole
      refine ⟨trigger, made, fun j event carries undecided => ?_⟩
      rw [eligible j event carries, decides event.kind undecided, Kind.canonical_exported]
      refine or_congr_left ?_
      split
      · rw [Ne, ← excludes, Bool.not_eq_true', Bool.not_eq_true]
      · rfl

/-- A rule for merge requests in double quotes, after one that excludes pushes. -/
def sampleCondition : String := "\t$CI_PIPELINE_SOURCE==\"merge_request_event\" "

def sampleEntry : Fields := [(.str "if", .str sampleCondition)]

def samplePushes : Value := sourceRule "pushes" [(.str "when", .str "never")]

theorem exported_kind_of_merge_requests :
    (Environment.ofRun [] "p" " Merge-Requests" "CACHE" "c" none none).get? "CI_PIPELINE_SOURCE" =
      some "merge_request_event" ∧
    ∃ trigger, compileRules "j" [] [] [samplePushes, .mapping sampleEntry] = .ok trigger ∧
      ∀ j : Job, j.trigger = some trigger →
        j.isEligible ⟨"mr", none, none⟩ = true ∧ j.isEligible ⟨"schedule", none, none⟩ = false := by
  obtain ⟨-, -, -, exports, decides⟩ := exported_kind_decides_its_form " Merge-Requests"
  have name : Kind.exported " Merge-Requests" = "merge_request_event" := by decide +kernel
  rw [name] at exports decides
  refine ⟨(exports [] "p" "CACHE" "c" none none (by decide)).1, ?_⟩
  have compares : Compares "merge_request_event".toList sampleCondition.toList :=
    @Compares.mk _ ['\t'] [] [] [' '] '\x22' '\x22' (List.all_eq_true.mp (by decide)) (.inl rfl) (.inl rfl)
  have read : readRules "j" ([samplePushes] ++ []) = .ok [⟨some "pushes", true⟩] := rfl
  obtain ⟨trigger, made, eligible⟩ := (decides (by decide) (by simp [IsQuoteMark]) "j" [samplePushes]
    sampleEntry [] _ compares rfl).2 _ read
  have undecided : ∀ kind, Kind.canonical kind ≠ "push" → Undecided "j" [samplePushes] kind := by
    intro kind other v hv r hr
    obtain rfl := List.mem_singleton.mp hv
    have pushes : rule "j" samplePushes = .ok ⟨some "pushes", true⟩ := rfl
    obtain rfl := Except.ok.inj (pushes.symm.trans hr)
    have form : Kind.canonical "pushes" = "push" := by decide +kernel
    simpa [Rule.fits, form] using Ne.symm other
  have same : Kind.canonical "mr" = Kind.canonical " Merge-Requests" := by decide +kernel
  have schedule : Kind.canonical "schedule" = "schedule" := by decide +kernel
  have other : Kind.canonical "schedule" ≠ Kind.canonical " Merge-Requests" := by decide +kernel
  refine ⟨trigger, made, fun j carries => ⟨?_, ?_⟩⟩
  · refine (eligible j ⟨"mr", none, none⟩ carries (undecided "mr" (by decide +kernel))).mpr (.inl ?_)
    rw [if_pos same]
    exact nofun
  · refine Bool.eq_false_iff.mpr fun runs => ?_
    have passes := (eligible j ⟨"schedule", none, none⟩ carries
      (undecided "schedule" (by rw [schedule]; decide))).mp runs
    rw [if_neg other, StartsReserved, schedule] at passes
    rcases passes with first | reserved
    · exact absurd first (by decide +kernel)
    · exact absurd reserved.1 (by decide)

/-- A rule that excludes the reserved kind leaves nothing that may pass, and the trigger for that lets the
reserved kind pass. -/
theorem reserved_kind_not_excluded : Kind.exported neverKind = neverKind ∧
    ∃ trigger, compileRules "j" [] [] [sourceRule neverKind [(.str "when", .str "never")]] = .ok trigger ∧
      ∀ j : Job, j.trigger = some trigger → j.isEligible ⟨neverKind, none, none⟩ = true := by
  refine ⟨by decide +kernel, ⟨[neverKind], []⟩, rfl, fun j carries => ?_⟩
  rw [Job.isEligible, carries]
  decide +kernel

end Field

end Conveyor
