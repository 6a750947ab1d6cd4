import Conveyor.Proofs.Shell.Tokens
import Mathlib.Data.List.Forall2
import Mathlib.Data.List.TakeWhile

/-!
Commands whose words are written with quotes. Words that are written one after the other, a blank between
them, are read as one simple command of just these words, and two such commands around an operator as the
two and nothing else.
-/

namespace Conveyor.Shell

/-- Words one after the other, with a blank between them. -/
inductive Writes : List Char → List String → Prop
  | last {cs : List Char} {arg : String} (word : WrittenAs cs arg.toList) : Writes cs [arg]
  | cons {cs more : List Char} {arg : String} {args : List String} (word : WrittenAs cs arg.toList)
      (rest : Writes more args) : Writes (cs ++ ' ' :: more) (arg :: args)

theorem Writes.append {cs cs' : List Char} {args args' : List String} (h : Writes cs args)
    (h' : Writes cs' args') : Writes (cs ++ ' ' :: cs') (args ++ args') := by
  induction h with
  | last word => exact .cons word h'
  | cons word _ ih => simpa using ih.cons word

theorem writes_intercalate (written : String → String) {first : String} {rest : List String}
    (words : ∀ arg ∈ first :: rest, WrittenAs (written arg).toList arg.toList) :
    Writes (" ".intercalate ((first :: rest).map written)).toList (first :: rest) := by
  induction rest generalizing first with
  | nil => simpa using Writes.last (words first List.mem_cons_self)
  | cons second rest ih =>
      obtain ⟨word, others⟩ := List.forall_mem_cons.mp words
      simpa using (ih others).cons word

/-- Options before the words of a command, each with a blank after it. -/
theorem writes_options {options : List String} {optionArgs : List (List String)}
    (each : List.Forall₂ (fun option args => Writes option.toList args) options optionArgs)
    {cs : List Char} {args : List String} (h : Writes cs args) :
    Writes ((String.join (options.map (· ++ " "))).toList ++ cs) (optionArgs.flatten ++ args) := by
  induction each with
  | nil => simpa using h
  | cons option _ ih => simpa using option.append ih

theorem Writes.length_le {cs : List Char} {args : List String} (h : Writes cs args) :
    args.length ≤ cs.length := by
  induction h with
  | last word => exact List.length_pos_of_ne_nil word.2
  | cons word _ ih =>
      simp only [List.length_append, List.length_cons]
      omega

theorem Writes.exists_cons {cs : List Char} {args : List String} (h : Writes cs args) :
    ∃ arg rest, args = arg :: rest := by
  cases h with
  | last | cons => exact ⟨_, _, rfl⟩

/-- A simple command of words for these texts, and of nothing else. -/
def Statement.Calls (st : Statement) (args : List String) : Prop :=
  ∃ line words, st = .simple line [] words [] ∧
    List.Forall₂ (fun w arg => Word.Means w (String.toList arg)) words args

theorem assignment?_eq_none {w : Word} {text : List Char} (h : Spells w text) (free : '=' ∉ text) :
    Scan.assignment? w = none := by
  cases h with
  | nil | quoted => rfl
  | @bare s w text filled safe more =>
      have whole : s.toList.takeWhile (· ≠ '=') = s.toList := by
        refine List.takeWhile_eq_self_iff.mpr fun c hc => ?_
        simpa using ne_of_mem_of_not_mem hc fun h => free (List.mem_append_left _ h)
      simp only [Scan.assignment?, whole, Nat.lt_irrefl, decide_false, Bool.false_and,
        Bool.false_eq_true, if_false]

section SimpleParts

variable {gap : List Char} (isGap : IsGap gap) {before : List Word}

include isGap

theorem reads_simpleParts_end {left : List Char} {t : Option String} (h : Follows left t) (fuel : Nat) :
    Reads (Scan.simpleParts (fuel + 1) [] before []) (gap ++ left) left (· = ([], before.reverse, [])) := by
  rw [Scan.simpleParts]
  refine (reads_redirect? isGap h.still h.noRedirect).bind ?_
  rintro _ rfl
  refine (h.reads_word? isGap).bind ?_
  rintro _ rfl
  exact .pure rfl

/-- A word with an equals sign is a word of the command where it is not the first. -/
theorem reads_simpleParts_word {cs text tail left : List Char} (h : WrittenAs cs text)
    (stops : WordStops tail) (free : before = [] → '=' ∉ text) {fuel : Nat}
    {P : List (String × Word) × List Word × List Redirect → Prop}
    (more : ∀ w, Word.Means w text → Reads (Scan.simpleParts fuel [] (w :: before) []) tail left P) :
    Reads (Scan.simpleParts (fuel + 1) [] before []) (gap ++ (cs ++ tail)) left P := by
  rw [Scan.simpleParts]
  refine (reads_redirect? isGap (h.still tail) (h.noRedirect stops)).bind ?_
  rintro _ rfl
  refine (h.reads_word? isGap stops.ends).bind ?_
  rintro _ ⟨w, rfl, means⟩
  dsimp only
  cases before with
  | nil =>
      rw [assignment?_eq_none means.1 (free rfl)]
      exact more w means
  | cons =>
      split <;> exact more w means

end SimpleParts

/-- The words of a command are read up to what follows it. -/
theorem reads_simpleParts {cs : List Char} {args : List String} (h : Writes cs args) {left : List Char}
    {t : Option String} (follows : Follows left t) {gap gap' : List Char} (isGap : IsGap gap)
    (isGap' : IsGap gap') {fuel : Nat} (enough : args.length < fuel) {before : List Word}
    (free : before = [] → ∀ arg ∈ args.head?, '=' ∉ arg.toList) :
    Reads (Scan.simpleParts fuel [] before []) (gap ++ (cs ++ (gap' ++ left))) left fun parts =>
      ∃ words, parts = ([], before.reverse ++ words, []) ∧
        List.Forall₂ (fun w arg => Word.Means w (String.toList arg)) words args := by
  induction h generalizing gap fuel before with
  | @last cs arg word =>
      obtain ⟨fuel, rfl⟩ := Nat.exists_eq_add_of_lt enough
      refine reads_simpleParts_word isGap word (follows.wordStops isGap') (fun h => free h _ rfl) ?_
      intro w means
      rw [List.length_singleton, Nat.add_comm]
      refine (reads_simpleParts_end isGap' follows _).mono ?_
      rintro _ rfl
      exact ⟨[w], by simp, .cons means .nil⟩
  | @cons cs more arg args word _ ih =>
      obtain ⟨fuel, rfl⟩ := Nat.exists_eq_add_of_lt enough
      have stops : WordStops (' ' :: more ++ (gap' ++ left)) := by
        rintro c ⟨⟩
        decide
      rw [List.append_assoc]
      refine reads_simpleParts_word isGap word stops (fun h => free h _ rfl) fun w means => ?_
      refine (ih isGap_blank (by simp; omega) fun h => absurd h (List.cons_ne_nil w before)).mono ?_
      rintro _ ⟨words, rfl, all⟩
      exact ⟨w :: words, by simp, .cons means all⟩

theorem reads_checkWord {w : Word} {text : List Char} (h : Spells w text) (fuel : Nat) (ahead : List Char) :
    Reads (checkWord fuel w) ahead ahead fun _ => True := by
  cases fuel with
  | zero => exact .pure trivial
  | succ fuel =>
      rw [checkWord]
      induction h with
      | nil => exact .pure trivial
      | quoted _ ih | bare _ _ _ ih =>
          rw [List.forIn_cons]
          exact ih

theorem reads_checkWords {words : List Word} {args : List String}
    (h : List.Forall₂ (fun w arg => Word.Means w (String.toList arg)) words args) (fuel : Nat)
    (ahead : List Char) :
    Reads (forIn words PUnit.unit fun w _ => do checkWord fuel w; pure (ForInStep.yield PUnit.unit)) ahead
      ahead fun _ => True := by
  induction h with
  | nil => exact .pure trivial
  | cons means _ ih =>
      rw [List.forIn_cons, bind_assoc]
      exact (reads_checkWord means.1 fuel ahead).bind fun _ _ => ih

section Command

variable {cs left : List Char} {args : List String} {t : Option String} {gap gap' : List Char}

/-- A name that starts a command: it sets no variable and is not reserved. -/
def IsCommandName (name : String) : Prop := '=' ∉ name.toList ∧ name ∉ reservedWords

theorem reads_readSimple (h : Writes cs args) (follows : Follows left t) (isGap : IsGap gap)
    (isGap' : IsGap gap') (named : ∀ arg ∈ args.head?, IsCommandName arg) (fuel : Nat) :
    Reads (readSimple (fuel + 1)) (gap ++ (cs ++ (gap' ++ left))) left (·.Calls args) := by
  have enough : args.length < (gap ++ (cs ++ (gap' ++ left))).length + 1 := by
    have := h.length_le
    simp only [List.length_append]
    omega
  rw [readSimple]
  refine (reads_get _).bind fun s _ => (reads_rest _).bind ?_
  rintro _ rfl
  refine (reads_simpleParts h follows isGap isGap' enough fun _ arg harg => (named arg harg).1).bind ?_
  rintro _ ⟨words, rfl, all⟩
  obtain ⟨arg, rest, rfl⟩ := h.exists_cons
  obtain ⟨w, ws, means, others, rfl⟩ := List.forall₂_cons_right_iff.mp all
  simp only [List.map_nil, List.reverse_nil, List.nil_append, List.append_nil, List.isEmpty_cons,
    Bool.and_false, Bool.false_and, Bool.false_eq_true, if_false]
  refine (reads_checkWords all fuel left).bind fun _ _ => (follows.reads_ahead isGap_nil).bind ?_
  rintro _ rfl
  have done : ∀ line, Statement.Calls (.simple line [] (w :: ws) []) (arg :: rest) := fun line =>
    ⟨line, w :: ws, rfl, all⟩
  split
  · exact absurd follows.token_mem (by decide)
  · exact absurd follows.token_mem (by decide)
  · exact .pure (done _)

theorem WrittenAs.reads_ahead {arg : String} (h : WrittenAs cs arg.toList) (isGap : IsGap gap)
    {tail : List Char} (ends : WordEnds tail) (free : arg ∉ reservedWords) :
    Reads Scan.ahead (gap ++ (cs ++ tail)) (cs ++ tail) (· = none) := by
  rw [← String.ofList_toList (s := arg)] at free
  exact Shell.reads_ahead isGap (h.still _) fun _ => h.token? ends free

theorem Writes.reads_ahead (h : Writes cs args) (isGap : IsGap gap) {tail : List Char}
    (stops : WordStops tail) (free : ∀ arg ∈ args.head?, arg ∉ reservedWords) :
    Reads Scan.ahead (gap ++ (cs ++ tail)) (cs ++ tail) (· = none) := by
  cases h with
  | last word => exact word.reads_ahead isGap stops.ends (free _ rfl)
  | @cons cs more arg args word _ =>
      have blank : WordEnds (' ' :: (more ++ tail)) := by
        rintro c ⟨⟩
        decide
      rw [List.append_assoc, List.cons_append]
      exact word.reads_ahead isGap blank (free _ rfl)

theorem reads_readCommand (h : Writes cs args) (follows : Follows left t) (isGap : IsGap gap)
    (isGap' : IsGap gap') (named : ∀ arg ∈ args.head?, IsCommandName arg) (fuel : Nat) :
    Reads (readCommand (fuel + 2)) (gap ++ (cs ++ (gap' ++ left))) left (·.Calls args) := by
  have stops := follows.wordStops isGap'
  rw [readCommand]
  refine (h.reads_ahead isGap stops fun arg harg => (named arg harg).2).bind ?_
  rintro _ rfl
  exact reads_readSimple h follows isGap_nil isGap' named fuel

theorem reads_takeToken_other {token : String} {cs left : List Char} {t : Option String}
    (ahead : Reads Scan.ahead cs left (· = t)) (other : t ≠ some token) :
    Reads (Scan.takeToken token) cs left (· = false) := by
  unfold Scan.takeToken
  refine ahead.bind ?_
  rintro _ rfl
  rw [if_neg other]
  exact .pure rfl

theorem reads_takeToken {token : String} {cs left left' : List Char}
    (ahead : Reads Scan.ahead cs left (· = some token))
    (taken : left.drop (Scan.tokenLength token) = left') :
    Reads (Scan.takeToken token) cs left' (· = true) := by
  unfold Scan.takeToken
  refine ahead.bind ?_
  rintro _ rfl
  rw [if_pos rfl]
  exact (reads_drop taken).bind fun _ _ => .pure rfl

theorem reads_readParallel (h : Writes cs args) (follows : Follows left t) (isGap : IsGap gap)
    (isGap' : IsGap gap') (named : ∀ arg ∈ args.head?, IsCommandName arg) (fuel : Nat) :
    Reads (readParallel (fuel + 3)) (gap ++ (cs ++ (gap' ++ left))) left
      fun parts => ∃ st : Statement, parts = [st] ∧ st.Calls args := by
  have pipe : t ≠ some "|" := by
    rintro rfl
    exact absurd follows.token_mem (by decide)
  rw [readParallel]
  refine (reads_readCommand h follows isGap isGap' named fuel).bind fun st calls => ?_
  refine (reads_takeToken_other (follows.reads_ahead isGap_nil) pipe).bind ?_
  rintro _ rfl
  exact .pure ⟨st, rfl, calls⟩

theorem reads_readPipeline (h : Writes cs args) (follows : Follows left t) (isGap : IsGap gap)
    (isGap' : IsGap gap') (named : ∀ arg ∈ args.head?, IsCommandName arg) (fuel : Nat) :
    Reads (readPipeline (fuel + 4)) (gap ++ (cs ++ (gap' ++ left))) left (·.Calls args) := by
  have start := h.reads_ahead isGap (follows.wordStops isGap') fun arg harg => (named arg harg).2
  rw [readPipeline]
  refine (reads_takeToken_other start (by decide)).bind ?_
  rintro _ rfl
  refine (reads_readParallel h follows isGap_nil isGap' named fuel).bind ?_
  rintro _ ⟨st, rfl, calls⟩
  exact .pure calls

theorem reads_lineBreak {ahead left : List Char} {t : Option String}
    (token : Reads Scan.ahead ahead left (· = t)) (other : t ≠ some "newline") :
    Reads Scan.lineBreak ahead left fun _ => True := by
  unfold Scan.lineBreak
  refine (reads_rest _).bind ?_
  rintro _ rfl
  rw [Scan.skipLines]
  refine (reads_takeToken_other token other).bind ?_
  rintro _ rfl
  exact .pure trivial

/-- The statement that an operator makes of two. -/
def joined (op : String) (first second : Statement) : Statement :=
  if op = "&&" then .both first second else .either first second

theorem reads_readAndOrAfter_end (first : Statement) (fuel : Nat) :
    Reads (readAndOrAfter (fuel + 1) first) [] [] (· = first) := by
  have done := Follows.nothing.reads_ahead isGap_nil
  rw [readAndOrAfter]
  refine (reads_takeToken_other done (by decide)).bind ?_
  rintro _ rfl
  refine (reads_takeToken_other done (by decide)).bind ?_
  rintro _ rfl
  exact .pure rfl

/-- The command after an operator is joined to what stands before it. -/
theorem reads_readAndOrAfter {op : String} (joins : op = "&&" ∨ op = "||") (first : Statement)
    (h : Writes cs args) (named : ∀ arg ∈ args.head?, IsCommandName arg) (fuel : Nat) :
    Reads (readAndOrAfter (fuel + 5) first) (op.toList ++ ' ' :: cs) []
      fun st => ∃ second : Statement, st = joined op first second ∧ second.Calls args := by
  have token := (Follows.operator joins (' ' :: cs)).reads_ahead isGap_nil
  have stops : WordStops [] := fun c hc => by cases hc
  have second : Reads (do
      Scan.lineBreak
      let second ← readPipeline (fuel + 4)
      readAndOrAfter (fuel + 4) (joined op first second)) (' ' :: cs) []
      fun st => ∃ second : Statement, st = joined op first second ∧ second.Calls args := by
    have start := h.reads_ahead isGap_blank stops fun arg harg => (named arg harg).2
    rw [List.append_nil] at start
    refine (reads_lineBreak start (by decide)).bind fun _ _ => ?_
    have pipeline := reads_readPipeline h .nothing isGap_nil isGap_nil named fuel
    simp only [List.nil_append, List.append_nil] at pipeline
    refine pipeline.bind fun second calls => ?_
    refine (reads_readAndOrAfter_end _ _).mono ?_
    rintro _ rfl
    exact ⟨second, rfl, calls⟩
  rw [readAndOrAfter]
  rcases joins with rfl | rfl
  · refine (reads_takeToken token rfl).bind ?_
    rintro _ rfl
    exact second
  · refine (reads_takeToken_other token (by decide)).bind ?_
    rintro _ rfl
    refine (reads_takeToken token rfl).bind ?_
    rintro _ rfl
    exact second

/-- Two simple commands with an operator between them, and nothing else. -/
def Statement.Joins (st : Statement) (op : String) (args args' : List String) : Prop :=
  ∃ first second : Statement, st = joined op first second ∧ first.Calls args ∧ second.Calls args'

section Line

variable {op : String} (joins : op = "&&" ∨ op = "||") {cs' : List Char} {args' : List String}
  (h : Writes cs args) (named : ∀ arg ∈ args.head?, IsCommandName arg) (h' : Writes cs' args')
  (named' : ∀ arg ∈ args'.head?, IsCommandName arg)

include joins h named

theorem reads_ahead_line :
    Reads Scan.ahead (cs ++ ' ' :: (op.toList ++ ' ' :: cs')) (cs ++ ' ' :: (op.toList ++ ' ' :: cs'))
      (· = none) := by
  have stops := (Follows.operator joins (' ' :: cs')).wordStops isGap_blank
  exact h.reads_ahead isGap_nil stops fun arg harg => (named arg harg).2

include h' named'

theorem reads_readAndOr (fuel : Nat) :
    Reads (readAndOr (fuel + 6)) (cs ++ ' ' :: (op.toList ++ ' ' :: cs')) [] (·.Joins op args args') := by
  have follows := Follows.operator joins (' ' :: cs')
  have pipeline := reads_readPipeline h follows isGap_nil isGap_blank named (fuel + 1)
  simp only [List.nil_append, List.cons_append] at pipeline
  rw [readAndOr]
  refine pipeline.bind fun first calls => ?_
  refine (reads_readAndOrAfter joins first h' named' fuel).mono ?_
  rintro _ ⟨second, rfl, calls'⟩
  exact ⟨first, second, rfl, calls, calls'⟩

theorem reads_readLine (fuel : Nat) :
    Reads (readLine (fuel + 7)) (cs ++ ' ' :: (op.toList ++ ' ' :: cs')) [] (·.Joins op args args') := by
  have done := Follows.nothing.reads_ahead isGap_nil
  have filled : (cs ++ ' ' :: (op.toList ++ ' ' :: cs')).isEmpty = false := by simp
  rw [readLine]
  refine (reads_ahead_line joins h named).bind ?_
  rintro _ rfl
  refine (reads_rest _).bind ?_
  rintro _ rfl
  simp only [filled, Bool.false_eq_true, if_false]
  refine (reads_readAndOr joins h named h' named' fuel).bind fun st both => ?_
  refine (reads_takeToken_other done (by decide)).bind ?_
  rintro _ rfl
  refine (reads_takeToken_other done (by decide)).bind ?_
  rintro _ rfl
  exact .pure both

/-- A script of two commands with an operator between them is one line with just these. -/
theorem reads_line? :
    Reads Scan.line? (cs ++ ' ' :: (op.toList ++ ' ' :: cs')) []
      fun line => ∃ st : Statement, line = some st ∧ st.Joins op args args' := by
  have filled : (cs ++ ' ' :: (op.toList ++ ' ' :: cs')).isEmpty = false := by simp
  unfold Scan.line?
  refine (reads_lineBreak (reads_ahead_line joins h named) (by decide)).bind fun _ _ => ?_
  refine (reads_rest _).bind ?_
  rintro _ rfl
  simp only [filled, Bool.false_eq_true, if_false]
  refine (reads_readLine joins h named h' named' _).bind fun st both => ?_
  refine (Follows.nothing.reads_ahead isGap_nil).bind ?_
  rintro _ rfl
  refine (reads_rest _).bind ?_
  rintro _ rfl
  exact .pure ⟨st, rfl, both⟩

end Line

end Command

end Conveyor.Shell
