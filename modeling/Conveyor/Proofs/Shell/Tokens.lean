import Conveyor.Proofs.Shell.Quoting
import Conveyor.Shell.Parser

/-!
Tokens before a word that is written with quotes. Such a word is read whole after a blank, it is no
operator and no redirection, and what may follow a simple command is known by its first character.
-/

namespace Conveyor.Shell

theorem reads_get (ahead : List Char) : Reads (get : Scan Scanner) ahead ahead (·.rest = ahead) :=
  fun s hs => ⟨s, s, rfl, hs, hs⟩

theorem reads_set {s : Scanner} {ahead left : List Char} (h : s.rest = left) :
    Reads (set s : Scan Unit) ahead left fun _ => True :=
  fun _ _ => ⟨(), s, rfl, h, trivial⟩

/-- Nothing that is skipped before a token. -/
def Still (cs : List Char) : Prop := ∀ c ∈ cs.head?, c ∉ " \t\\#".toList

/-- What may stand between two tokens. -/
def IsGap (gap : List Char) : Prop := gap = [] ∨ gap = [' ']

theorem isGap_nil : IsGap [] := .inl rfl

theorem isGap_blank : IsGap [' '] := .inr rfl

theorem reads_skipBlanks {cs : List Char} (still : Still cs) (fuel : Nat) :
    Reads (skipBlanks fuel) cs cs fun _ => True := by
  cases fuel with
  | zero => exact .pure trivial
  | succ fuel =>
      have stands : ∀ c ∈ " \t\\#".toList, cs.head? ≠ some c := fun c hc start => still c start hc
      rw [skipBlanks]
      refine (reads_rest _).bind ?_
      rintro _ rfl
      split
      · exact absurd rfl (stands ' ' (by decide))
      · exact absurd rfl (stands '\t' (by decide))
      · exact absurd rfl (stands '\\' (by decide))
      · exact absurd rfl (stands '#' (by decide))
      · exact .pure trivial

theorem reads_skip {gap cs : List Char} (isGap : IsGap gap) (still : Still cs) :
    Reads Scan.skip (gap ++ cs) cs fun _ => True := by
  refine (reads_rest _).bind ?_
  rintro _ rfl
  rcases isGap with rfl | rfl
  · exact reads_skipBlanks still _
  · rw [List.length_append, List.length_singleton, Nat.add_comm 1]
    rw [skipBlanks]
    refine (reads_rest _).bind ?_
    rintro _ rfl
    exact (reads_drop rfl).bind fun _ _ => reads_skipBlanks still _

/-- A text is written as a word. -/
def WrittenAs (cs : List Char) (text : List Char) : Prop := Quotes cs text ∧ cs ≠ []

theorem writtenAs_quoteWord (arg : String) : WrittenAs (quoteWord arg).toList arg.toList := by
  rw [quoteWord, String.toList_ofList]
  exact ⟨.quoteWordChars _, quoteWordChars_ne_nil _⟩

theorem writtenAs_safe {arg : String} (filled : arg ≠ "") (safe : arg.toList.all isSafeChar = true) :
    WrittenAs arg.toList arg.toList :=
  ⟨.safe safe, by simpa using filled⟩

/-- A word that is nothing but a text. -/
def Word.Means (w : Word) (text : List Char) : Prop := Spells w text ∧ w ≠ []

theorem Quotes.start {c : Char} {cs text : List Char} (h : Quotes (c :: cs) text) :
    isSafeChar c = true ∨ c = '\x27' ∨ c = '\x22' := by
  cases h with
  | bare safe _ => exact .inl safe
  | single => exact .inr (.inl rfl)
  | double => exact .inr (.inr rfl)

theorem Quotes.start_ne {c d : Char} {cs text : List Char} (h : Quotes (c :: cs) text)
    (active : d ∈ activeOutside) : c ≠ d := by
  rcases h.start with safe | rfl | rfl
  · exact ne_of_safe safe (not_safe_of_active active)
  · rintro rfl
    revert active
    decide
  · rintro rfl
    revert active
    decide

namespace WrittenAs

variable {cs text : List Char} (h : WrittenAs cs text)

include h

theorem start_ne (tail : List Char) {c : Char} (active : c ∈ activeOutside) :
    (cs ++ tail).head? ≠ some c := by
  obtain ⟨quotes, filled⟩ := h
  cases cs with
  | nil => exact absurd rfl filled
  | cons d rest => simpa using quotes.start_ne active

theorem still (tail : List Char) : Still (cs ++ tail) := by
  intro c start skipped
  have active : ∀ d ∈ " \t\\#".toList, d ∈ activeOutside := List.all_iff_forall_prop.mp (by decide)
  exact h.start_ne tail (active c skipped) start

theorem reads_word? {gap tail : List Char} (isGap : IsGap gap) (ends : WordEnds tail) :
    Reads Scan.word? (gap ++ (cs ++ tail)) tail fun r => ∃ w, r = some w ∧ w.Means text := by
  obtain ⟨quotes, filled⟩ := h
  have goesOn : ∀ c ∈ (cs ++ tail).head?, endsWord c = false := by
    intro c start
    apply Bool.eq_false_iff.mpr
    intro ends
    have active : ∀ d ∈ " \t\n;&|<>()".toList, d ∈ activeOutside :=
      List.all_iff_forall_prop.mp (by decide)
    exact WrittenAs.start_ne ⟨quotes, filled⟩ tail (active c (by simpa [endsWord] using ends)) start
  unfold Scan.word?
  refine (reads_skip isGap (WrittenAs.still ⟨quotes, filled⟩ tail)).bind fun _ _ => (reads_rest _).bind ?_
  rintro _ rfl
  cases cs with
  | nil => exact absurd rfl filled
  | cons c rest =>
      have plain : endsWord c = false := goesOn c rfl
      simp only [List.cons_append, List.head?_cons, plain, Bool.false_eq_true, if_false]
      have enough : (c :: rest).length < 2 * (c :: (rest ++ tail)).length + 2 := by simp; omega
      refine (reads_parts quotes ends enough).bind fun w means => .pure ?_
      exact ⟨w, rfl, means.1, means.2 filled⟩

end WrittenAs

/-- The operators of the shell, the longer ones first. -/
def operators : List String := ["&&", "||", ";;", "<<", ">>", "&", "|", ";", "(", ")", "<", ">"]

/-- The operator or the reserved word that a scanner stands before. -/
def Scanner.token? (s : Scanner) : Option String :=
  match s.rest with
  | [] => none
  | c :: _ =>
    if c = '\n' then some "newline"
    else (operators.find? fun op => op.toList.isPrefixOf s.rest).or <|
      match (Scan.word?).run s with
      | .ok (some w, _) => (plainText? w).filter reservedWords.contains
      | _ => none

theorem forIn_operators {ops : List String} {cs : List Char} :
    (forIn ops (none, ()) fun op _ =>
      if op.toList.isPrefixOf cs = true then pure (ForInStep.done (some (some op), ()))
      else pure (ForInStep.yield (none, ())) : Scan (Option (Option String) × Unit)) =
      pure ((ops.find? fun op => op.toList.isPrefixOf cs).map some, ()) := by
  induction ops with
  | nil => rfl
  | cons op rest ih =>
      rw [List.forIn_cons, List.find?_cons]
      by_cases h : op.toList.isPrefixOf cs = true
      · rw [if_pos h, h, pure_bind]
        rfl
      · rw [if_neg h, Bool.eq_false_iff.mpr h, pure_bind]
        exact ih

theorem ahead_eq : Scan.ahead = do
    Scan.skip
    return (← get).token? := by
  unfold Scan.ahead
  refine congrArg _ (funext fun _ => congrArg _ (funext fun s => ?_))
  obtain ⟨cs, line, documentLines⟩ := s
  unfold Scanner.token? operators
  cases cs with
  | nil => rfl
  | cons c rest =>
      dsimp only
      split
      · rfl
      · rw [forIn_operators, pure_bind]
        generalize ["&&", "||", ";;", "<<", ">>", "&", "|", ";", "(", ")", "<", ">"].find?
          (fun op => op.toList.isPrefixOf (c :: rest)) = operator
        generalize (Scan.word?).run { rest := c :: rest, line, documentLines } = outcome
        cases operator with
        | some op => rfl
        | none =>
            match outcome with
            | .error _ | .ok (none, _) => rfl
            | .ok (some w, _) =>
                cases plain : plainText? w <;> simp [plain, Option.filter_some]

theorem reads_ahead {gap cs : List Char} (isGap : IsGap gap) (still : Still cs) {t : Option String}
    (token : ∀ s : Scanner, s.rest = cs → s.token? = t) : Reads Scan.ahead (gap ++ cs) cs (· = t) := by
  rw [ahead_eq]
  exact (reads_skip isGap still).bind fun _ _ => (reads_get _).bind fun s hs => .pure (token s hs)

theorem Spells.of_plainText? {w : Word} {text : List Char} (h : Spells w text) {t : String}
    (plain : plainText? w = some t) : t = String.ofList text := by
  unfold plainText? at plain
  split at plain
  · cases plain
    cases h with
    | bare _ _ more =>
        cases more
        simp
  · cases plain

/-- A word that is not reserved is no token of its own. -/
theorem WrittenAs.token? {cs text tail : List Char} (h : WrittenAs cs text) (ends : WordEnds tail)
    (free : String.ofList text ∉ reservedWords) {s : Scanner} (hs : s.rest = cs ++ tail) :
    s.token? = none := by
  obtain ⟨_, _, run, -, w, rfl, spells, -⟩ := h.reads_word? isGap_nil ends s hs
  obtain ⟨c, rest, rfl⟩ := List.exists_cons_of_ne_nil h.2
  have other : ∀ d ∈ activeOutside, c ≠ d := fun d hd same => h.start_ne tail hd (congrArg some same)
  have noOperator : operators.find? (fun op => op.toList.isPrefixOf s.rest) = none := by
    have active : ∀ op ∈ operators, op.toList.head?.any activeOutside.contains = true := by
      decide
    refine List.find?_eq_none.mpr fun op hop starts => ?_
    obtain ⟨d, first, hd⟩ := (Option.any_eq_true _ _).mp (active op hop)
    rw [List.contains_iff_mem] at hd
    obtain ⟨after, whole⟩ := List.isPrefixOf_iff_prefix.mp starts
    have both := congrArg List.head? (whole.trans hs)
    rw [List.head?_append, first] at both
    exact other d hd (Option.some.inj both).symm
  unfold Scanner.token?
  rw [noOperator, run, hs]
  simp only [List.cons_append, other '\n' (by decide), if_false, Option.none_or]
  refine Option.filter_eq_none_iff.mpr fun t plain => ?_
  simpa using spells.of_plainText? plain ▸ free

/-- A word ends here, by a blank or an operator between commands. -/
def WordStops (tail : List Char) : Prop := ∀ c ∈ tail.head?, c ∈ " &|".toList

theorem WordStops.ends {tail : List Char} (h : WordStops tail) : WordEnds tail := by
  intro c hc
  have ends : ∀ d ∈ " &|".toList, endsWord d = true := List.all_eq_true.mp (by decide)
  exact ends c (h c hc)

/-- What comes after a simple command: nothing, or an operator that joins it to the next. -/
inductive Follows : List Char → Option String → Prop
  | nothing : Follows [] none
  | operator {op : String} (joins : op = "&&" ∨ op = "||") (more : List Char) :
      Follows (op.toList ++ more) (some op)

namespace Follows

variable {left : List Char} {t : Option String} (h : Follows left t)

include h

theorem token? {s : Scanner} (hs : s.rest = left) : s.token? = t := by
  unfold Scanner.token?
  rw [hs]
  cases h with
  | nothing => rfl
  | operator joins more => rcases joins with rfl | rfl <;> rfl

theorem token_mem : t ∈ [none, some "&&", some "||"] := by
  cases h with
  | nothing => decide
  | operator joins more => rcases joins with rfl | rfl <;> decide

theorem start {c : Char} (hc : c ∈ left.head?) : c = '&' ∨ c = '|' := by
  cases h with
  | nothing => cases hc
  | operator joins more =>
      rcases joins with rfl | rfl
      · exact .inl (Option.some.inj hc).symm
      · exact .inr (Option.some.inj hc).symm

theorem still : Still left := by
  intro c hc
  rcases h.start hc with rfl | rfl <;> decide

theorem wordStops {gap : List Char} (isGap : IsGap gap) : WordStops (gap ++ left) := by
  intro c hc
  rcases isGap with rfl | rfl
  · rcases h.start hc with rfl | rfl <;> decide
  · cases hc
    decide

theorem reads_ahead {gap : List Char} (isGap : IsGap gap) :
    Reads Scan.ahead (gap ++ left) left (· = t) :=
  Shell.reads_ahead isGap h.still fun _ => h.token?

theorem reads_word? {gap : List Char} (isGap : IsGap gap) :
    Reads Scan.word? (gap ++ left) left (· = none) := by
  unfold Scan.word?
  refine (reads_skip isGap h.still).bind fun _ _ => (reads_rest _).bind ?_
  rintro _ rfl
  cases start : left.head? with
  | none => exact .pure rfl
  | some c =>
      have ends : endsWord c = true := by
        rcases h.start start with rfl | rfl <;> decide
      simp only [ends, if_true]
      exact .pure rfl

end Follows

/-- No redirection starts here. -/
structure NoRedirect (cs : List Char) : Prop where
  head : ∀ c ∈ cs.head?, c ≠ '<' ∧ c ≠ '>'
  second : ∀ d c more, cs = d :: c :: more → d.isDigit = true → c ≠ '<' ∧ c ≠ '>'

theorem reads_streamNumber {gap cs : List Char} (isGap : IsGap gap) (still : Still cs)
    (no : NoRedirect cs) : Reads Scan.streamNumber (gap ++ cs) cs (· = none) := by
  unfold Scan.streamNumber
  refine (reads_skip isGap still).bind fun _ _ => (reads_rest _).bind ?_
  rintro _ rfl
  split
  · rename_i d c more
    split
    · rename_i number
      rw [Bool.and_eq_true] at number
      have := no.second d c more rfl number.1
      simp_all
    · exact .pure rfl
  · exact .pure rfl

theorem reads_take {c : Char} {op cs : List Char} (other : cs.head? ≠ some c) :
    Reads (Scan.take (c :: op)) cs cs (· = false) := by
  unfold Scan.take
  refine (reads_rest _).bind ?_
  rintro _ rfl
  have no : (c :: op).isPrefixOf cs = false := by
    cases cs with
    | nil => rfl
    | cons d rest => simpa [List.isPrefixOf] using fun same => absurd (congrArg some same.symm) other
  rw [if_neg (by simp [no])]
  exact .pure rfl

theorem reads_redirect? {gap cs : List Char} (isGap : IsGap gap) (still : Still cs) (no : NoRedirect cs) :
    Reads Scan.redirect? (gap ++ cs) (gap ++ cs) (· = none) := by
  unfold Scan.redirect?
  refine (reads_get _).bind fun s hs => (reads_streamNumber isGap still no).bind ?_
  rintro _ rfl
  have into : cs.head? ≠ some '>' := fun h => (no.head _ h).2 rfl
  have out : cs.head? ≠ some '<' := fun h => (no.head _ h).1 rfl
  -- none of the signs of a redirection is taken
  iterate 4
    refine (reads_take into).bind ?_
    rintro _ rfl
    rw [if_neg Bool.false_ne_true]
  iterate 3
    refine (reads_take out).bind ?_
    rintro _ rfl
    rw [if_neg Bool.false_ne_true]
  exact (reads_set hs).bind fun _ _ => .pure rfl

theorem WrittenAs.noRedirect {cs text tail : List Char} (h : WrittenAs cs text) (stops : WordStops tail) :
    NoRedirect (cs ++ tail) where
  head c hc := ⟨fun same => h.start_ne tail (by decide) (same ▸ hc), fun same =>
    h.start_ne tail (by decide) (same ▸ hc)⟩
  second d c more start digit := by
    obtain ⟨quotes, filled⟩ := h
    cases quotes with
    | nil => exact absurd rfl filled
    | @bare d' cs text safe quotes =>
        rw [List.cons_append] at start
        obtain ⟨rfl, rest⟩ := List.cons.inj start
        cases cs with
        | nil =>
            have other : ∀ e ∈ " &|".toList, e ≠ '<' ∧ e ≠ '>' :=
              List.all_iff_forall_prop.mp (by decide)
            exact other c (stops c (congrArg List.head? rest))
        | cons c' cs =>
            obtain ⟨rfl, -⟩ := List.cons.inj rest
            exact ⟨quotes.start_ne (by decide), quotes.start_ne (by decide)⟩
    | single | double =>
        obtain ⟨rfl, -⟩ := List.cons.inj start
        exact absurd digit (by decide)

theorem Follows.noRedirect {left : List Char} {t : Option String} (h : Follows left t) :
    NoRedirect left where
  head c hc := by rcases h.start hc with rfl | rfl <;> decide
  second d c more start digit := by
    rcases h.start (c := d) (by simp [start]) with rfl | rfl <;> exact absurd digit (by decide)

end Conveyor.Shell
