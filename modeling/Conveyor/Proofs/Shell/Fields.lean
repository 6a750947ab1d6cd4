import Conveyor.Proofs.Shell.Commands
import Conveyor.Shell.Expand

/-!
Fields of words without expansions. A word of texts alone, of which what is not quoted is safe, stands for
one field, which is its text: it is neither expanded nor split nor matched against names, whatever the
variables and the files are.
-/

namespace Conveyor.Shell

/-- The items of a word of texts alone. -/
def textItems : Word → List Item
  | .text s true :: rest => .quotes :: Item.ofText s .quoted ++ textItems rest
  | .text s false :: rest => Item.ofText s .literal ++ textItems rest
  | _ => []

/-- Items that belong to one field. -/
def Item.IsSolid : Item → Prop
  | .glyph _ origin => origin ≠ .expanded
  | .quotes => True
  | .fieldBreak => False

theorem Item.marked_append (items more : List Item) :
    Item.marked (items ++ more) = Item.marked items ++ Item.marked more := by
  simp [Item.marked]

theorem Item.marked_ofText (s : String) (origin : Origin) :
    Item.marked (Item.ofText s origin) = s.toList.map fun c => (c, decide (origin = .quoted)) := by
  simp [Item.marked, Item.ofText]

theorem marked_textItems_quoted (s : String) (w : Word) : Item.marked (textItems (.text s true :: w)) =
    (s.toList.map fun c => (c, true)) ++ Item.marked (textItems w) := by
  have quoted := Item.marked_ofText s .quoted
  rw [decide_eq_true rfl] at quoted
  rw [← quoted, ← Item.marked_append]
  rfl

theorem marked_textItems_bare (s : String) (w : Word) : Item.marked (textItems (.text s false :: w)) =
    (s.toList.map fun c => (c, false)) ++ Item.marked (textItems w) := by
  have bare := Item.marked_ofText s .literal
  rw [decide_eq_false Origin.noConfusion] at bare
  rw [← bare, ← Item.marked_append]
  rfl

section Word

variable {w : Word} {text : List Char} (h : Spells w text)

include h

theorem expandTilde_eq : expandTilde w = pure w := by
  cases h with
  | nil | quoted => rfl
  | @bare s w text filled safe more =>
      unfold expandTilde
      dsimp only
      split
      · rename_i tail start
        have tilde := safe '~' (by rw [start]; exact List.mem_cons_self)
        exact absurd tilde (by decide)
      · rfl

theorem expandParts_eq (run : Scanner → Flow String) : expandParts run w = pure (textItems w) := by
  induction h with
  | nil => rw [expandParts]; rfl
  | quoted _ ih => rw [expandParts, ih, expandPart]; rfl
  | bare _ _ _ ih => rw [expandParts, ih, expandPart]; rfl

theorem isNothing_eq_false (items : List Item) : isNothing w items = false := by
  have texts : ∀ part ∈ w, ∃ s quoted, part = .text s quoted := by
    induction h with
    | nil => exact fun _ hp => nomatch hp
    | quoted _ ih | bare _ _ _ ih => exact List.forall_mem_cons.mpr ⟨⟨_, _, rfl⟩, ih⟩
  rw [isNothing, Bool.and_eq_false_iff]
  refine .inr (List.any_eq_false.mpr fun part hp => ?_)
  obtain ⟨s, quoted, rfl⟩ := texts part hp
  exact Bool.false_ne_true

theorem solid_textItems : ∀ i ∈ textItems w, i.IsSolid := by
  have glyphs : ∀ (s : String) (origin : Origin), origin ≠ .expanded →
      ∀ i ∈ Item.ofText s origin, i.IsSolid := by
    intro s origin other i hi
    obtain ⟨c, -, rfl⟩ := List.mem_map.mp hi
    exact other
  induction h with
  | nil => exact fun _ hi => nomatch hi
  | quoted _ ih =>
      refine List.forall_mem_cons.mpr ⟨trivial, List.forall_mem_append.mpr ⟨?_, ih⟩⟩
      exact glyphs _ .quoted (by decide)
  | bare _ _ _ ih => exact List.forall_mem_append.mpr ⟨glyphs _ .literal (by decide), ih⟩

theorem unmarked_textItems : unmarked (Item.marked (textItems w)) = String.ofList text := by
  refine congrArg String.ofList ?_
  induction h with
  | nil => rfl
  | quoted _ ih =>
      rw [marked_textItems_quoted, List.map_append, ih, List.map_map]
      simp [Function.comp_def]
  | bare _ _ _ ih =>
      rw [marked_textItems_bare, List.map_append, ih, List.map_map]
      simp [Function.comp_def]

/-- What is not quoted is safe. -/
theorem safe_of_unquoted : ∀ c ∈ Item.marked (textItems w), c.2 = false → isSafeChar c.1 = true := by
  induction h with
  | nil => exact fun _ hc => nomatch hc
  | quoted _ ih =>
      rw [marked_textItems_quoted]
      refine List.forall_mem_append.mpr ⟨fun c hc unquoted => ?_, ih⟩
      obtain ⟨c, -, rfl⟩ := List.mem_map.mp hc
      cases unquoted
  | bare _ safe _ ih =>
      rw [marked_textItems_bare]
      refine List.forall_mem_append.mpr ⟨fun c hc _ => ?_, ih⟩
      obtain ⟨d, hd, rfl⟩ := List.mem_map.mp hc
      exact safe d hd

theorem textItems_ne_nil (there : w ≠ []) : textItems w ≠ [] := by
  cases h with
  | nil => exact absurd rfl there
  | quoted => exact List.cons_ne_nil _ _
  | bare filled _ _ => exact List.append_ne_nil_of_left_ne_nil (by simp [Item.ofText, filled]) _

end Word

theorem foldl_splitItem {items : List Item} (solid : ∀ i ∈ items, i.IsSolid) (separators : List Char)
    (done : List (List Marked)) (f : Field) :
    ∃ f', items.foldl (fun (done, f) i => splitItem separators done f i) (done, f) = (done, f') ∧
      f'.glyphs = (Item.marked items).reverse ++ f.glyphs ∧ f'.isOpen = (f.isOpen || !items.isEmpty) := by
  induction items generalizing f with
  | nil => exact ⟨f, rfl, by simp [Item.marked], by simp⟩
  | cons i rest ih =>
      obtain ⟨first, others⟩ := List.forall_mem_cons.mp solid
      rw [List.foldl_cons]
      cases i with
      | fieldBreak => exact first.elim
      | quotes =>
          obtain ⟨f', fold, glyphs, isOpen⟩ := ih others { f with isOpen := true, afterBlank := false }
          exact ⟨f', fold, by simp [glyphs, Item.marked], by simp [isOpen]⟩
      | glyph c origin =>
          have apart : (decide (origin = .expanded) && separators.contains c) = false := by
            rw [decide_eq_false first, Bool.false_and]
          obtain ⟨f', fold, glyphs, isOpen⟩ := ih others
            { glyphs := (c, decide (origin = .quoted)) :: f.glyphs, isOpen := true }
          refine ⟨f', ?_, by simp [glyphs, Item.marked], by simp [isOpen]⟩
          simpa only [splitItem, apart, Bool.false_eq_true, if_false] using fold

/-- Items without breaks make one field. -/
theorem splitItems_eq {separators : List Char} {items : List Item} (solid : ∀ i ∈ items, i.IsSolid)
    (filled : items ≠ []) : splitItems separators items = [Item.marked items] := by
  obtain ⟨f, fold, glyphs, isOpen⟩ := foldl_splitItem solid separators [] {}
  simp only [splitItems, fold, isOpen, glyphs]
  simp [filled]

theorem hasWildcard_ofMarked {field : List Marked}
    (plain : ∀ c ∈ field, c.2 = false → isSafeChar c.1 = true) (fuel : Nat) :
    hasWildcard (Element.ofMarked fuel field) = false := by
  induction fuel generalizing field with
  | zero => rfl
  | succ fuel ih =>
      cases field with
      | nil => rfl
      | cons c rest =>
          obtain ⟨c, quoted⟩ := c
          obtain ⟨first, others⟩ := List.forall_mem_cons.mp plain
          unfold Element.ofMarked
          cases quoted with
          | true => exact ih others
          | false =>
              have other : ∀ d, isSafeChar d = false → c ≠ d := fun d => ne_of_safe (first rfl)
              simp only [Bool.false_eq_true, if_false, other '*' (by decide), other '?' (by decide),
                other '[' (by decide)]
              exact ih others

theorem matchField_eq {field : List Marked} (plain : ∀ c ∈ field, c.2 = false → isSafeChar c.1 = true)
    (m : Machine) : matchField m field = [unmarked field] := by
  rw [matchField, patternOf, hasWildcard_ofMarked plain, Bool.not_false, Bool.or_true, if_pos rfl]

/-- A word of one text is one field, whatever the state of the shell, which it leaves as it is. -/
theorem expandWord_eq {w : Word} {text : List Char} (means : w.Means text) (run : Scanner → Flow String) :
    expandWord run w = pure [String.ofList text] := by
  obtain ⟨spells, filled⟩ := means
  have one : ∀ (m : Machine) (separators : List Char),
      (splitItems separators (textItems w)).flatMap (matchField m) = [String.ofList text] := by
    intro m separators
    rw [splitItems_eq (solid_textItems spells) (textItems_ne_nil spells filled), List.flatMap_singleton,
      matchField_eq (safe_of_unquoted spells), unmarked_textItems spells]
  unfold expandWord
  rw [expandTilde_eq spells, pure_bind, expandParts_eq spells, pure_bind]
  simp only [isNothing_eq_false spells, Bool.and_false, Bool.false_eq_true, if_false]
  exact funext fun m => congrArg (fun fields => (Except.ok fields, m)) (one m _)

/-- The words of a command stand for these arguments: they are texts alone, and whatever the state of the
shell is, their expansion gives the arguments and leaves the state as it is. -/
def StandFor (words : List Word) (args : List String) : Prop :=
  List.Forall₂ (fun w arg => Word.Means w (String.toList arg)) words args ∧
    ∀ run : Scanner → Flow String, expandWords run words = pure args

theorem expandWords_eq {words : List Word} {args : List String}
    (h : List.Forall₂ (fun w arg => Word.Means w (String.toList arg)) words args)
    (run : Scanner → Flow String) : expandWords run words = pure args := by
  have each : words.mapM (expandWord run) = (pure (args.map fun arg => [arg]) : Flow _) := by
    induction h with
    | nil => rfl
    | cons means _ ih =>
        rw [List.mapM_cons, expandWord_eq means, pure_bind, ih, pure_bind, String.ofList_toList]
        rfl
  rw [expandWords, each, pure_bind, ← List.flatMap_def, List.flatMap_singleton']

/-- A script is read as two commands with an operator between them, with these words and nothing else. -/
def ReadAs (script : String) (join : Statement → Statement → Statement) (args args' : List String) :
    Prop :=
  ∃ s : Scanner, ∃ line line' words words',
    (Scan.line?).run { rest := script.toList } =
      .ok (some (join (.simple line [] words []) (.simple line' [] words' [])), s) ∧
    s.rest = [] ∧ StandFor words args ∧ StandFor words' args'

theorem readAs_of_writes {op : String} (joins : op = "&&" ∨ op = "||") {cs cs' : List Char}
    {args args' : List String} (h : Writes cs args) (named : ∀ arg ∈ args.head?, IsCommandName arg)
    (h' : Writes cs' args') (named' : ∀ arg ∈ args'.head?, IsCommandName arg) {script : String}
    (text : script.toList = cs ++ ' ' :: (op.toList ++ ' ' :: cs')) :
    ReadAs script (joined op) args args' := by
  obtain ⟨_, s, run, left, _, rfl, _, _, rfl, ⟨line, words, rfl, all⟩, line', words', rfl, all'⟩ :=
    reads_line? joins h named h' named' { rest := script.toList } text
  exact ⟨s, line, line', words, words', run, left, ⟨all, expandWords_eq all⟩, all', expandWords_eq all'⟩

theorem Spells.unique {w : Word} {text text' : List Char} (h : Spells w text) (h' : Spells w text') :
    text = text' := by
  induction h generalizing text' with
  | nil => cases h'; rfl
  | quoted _ ih => cases h' with | quoted more => rw [ih more]
  | bare _ _ _ ih => cases h' with | bare _ _ more => rw [ih more]

theorem StandFor.unique {words : List Word} {args args' : List String} (h : StandFor words args)
    (h' : StandFor words args') : args = args' := by
  obtain ⟨all, -⟩ := h
  obtain ⟨all', -⟩ := h'
  induction all generalizing args' with
  | nil => cases all'; rfl
  | cons means _ ih =>
      cases all' with
      | cons means' more => rw [String.toList_inj.mp (means.1.unique means'.1), ih more]

end Conveyor.Shell
