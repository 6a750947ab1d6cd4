import Conveyor.Value.Merge
import Conveyor.Value.Text

/-!
What a value is made of where lists in it are flattened. The text of a list is longer than the texts of
the values that it is made of, so it does not pass for them.
-/

namespace Conveyor

namespace Value

mutual

/-- The values that are no lists, from left to right. -/
def leaves : Value → List Value
  | .list items => leavesOf items
  | v => [v]

def leavesOf : List Value → List Value
  | [] => []
  | v :: rest => leaves v ++ leavesOf rest

end

/-- Texts, numbers and truth values. -/
def isPlain : Value → Bool
  | .scalar (.str _) | .scalar (.bool _) | .scalar (.int _) | .scalar (.float _) => true
  | _ => false

theorem leavesOf_eq_flatMap (items : List Value) : leavesOf items = items.flatMap leaves := by
  induction items with
  | nil => rfl
  | cons v rest ih => rw [leavesOf, ih, List.flatMap_cons]

theorem leaves_of_isPlain {v : Value} (h : v.isPlain = true) : v.leaves = [v] := by
  cases v with
  | list => cases h
  | _ => rfl

theorem leavesOf_of_isPlain {items : List Value} (h : ∀ v ∈ items, v.isPlain = true) :
    leavesOf items = items := by
  induction items with
  | nil => rfl
  | cons v rest ih =>
      obtain ⟨plain, others⟩ := List.forall_mem_cons.mp h
      rw [leavesOf, leaves_of_isPlain plain, ih others, List.singleton_append]

/-- The length of texts together. -/
def totalLength : List String → Nat
  | [] => 0
  | s :: rest => s.length + totalLength rest

theorem totalLength_append (texts texts' : List String) :
    totalLength (texts ++ texts') = totalLength texts + totalLength texts' := by
  induction texts with
  | nil => simp [totalLength]
  | cons s rest ih =>
      rw [List.cons_append, totalLength, totalLength, ih]
      omega

/-- The length of the texts of values. -/
def textLength (vs : List Value) : Nat := totalLength (vs.map text)

theorem textLength_cons (v : Value) (vs : List Value) :
    textLength (v :: vs) = v.text.length + textLength vs := rfl

theorem textLength_append (vs vs' : List Value) :
    textLength (vs ++ vs') = textLength vs + textLength vs' := by
  rw [textLength, List.map_append, totalLength_append]
  rfl

theorem length_le_flatMap {α β : Type} (f : α → List β) (filled : ∀ a, f a ≠ []) (l : List α) :
    l.length ≤ (l.flatMap f).length := by
  induction l with
  | nil => exact Nat.le_refl 0
  | cons a rest ih =>
      have first := List.length_pos_iff.mpr (filled a)
      rw [List.flatMap_cons, List.length_append, List.length_cons]
      omega

theorem quotedChar_ne_nil (q c : Char) : Text.quotedChar q c ≠ [] := by
  unfold Text.quotedChar Text.numbered
  repeat' split
  all_goals exact List.cons_ne_nil _ _

theorem length_le_quoted (s : String) : s.length ≤ (Text.quoted s).length := by
  have inside := length_le_flatMap _ (quotedChar_ne_nil (Text.quoteFor s.toList)) s.toList
  simp only [Text.quoted, Text.quotedChars, String.length_ofList, List.length_cons, List.length_append]
  rw [String.length_toList] at inside
  omega

theorem length_text_le_shown {v : Value} (h : v.isPlain = true) : v.text.length ≤ v.shown.length := by
  match v with
  | .scalar (.str s) => exact length_le_quoted s
  | .scalar (.bool _) | .scalar (.int _) | .scalar (.float _) => exact Nat.le_refl _

theorem totalLength_le_intercalate (sep : String) (texts : List String) :
    totalLength texts ≤ (sep.intercalate texts).length := by
  match texts with
  | [] => exact Nat.le_refl 0
  | [s] => simp [totalLength]
  | s :: t :: rest =>
      have later := totalLength_le_intercalate sep (t :: rest)
      rw [String.intercalate_cons_cons, String.length_append, String.length_append, totalLength]
      omega

theorem length_shown_list (items : List Value) :
    totalLength (shownItems items) + 2 ≤ (Value.list items).shown.length := by
  have inside := totalLength_le_intercalate ", " (shownItems items)
  have opening : "[".length = 1 := rfl
  have closing : "]".length = 1 := rfl
  rw [shown, String.length_append, String.length_append]
  omega

mutual

theorem textLength_leaves_le (v : Value) (plain : ∀ leaf ∈ v.leaves, leaf.isPlain = true) :
    textLength v.leaves ≤ v.shown.length := by
  match v with
  | .list items =>
      have inside := textLength_leavesOf_le items plain
      have around := length_shown_list items
      rw [leaves]
      omega
  | .scalar s => exact length_text_le_shown (plain (.scalar s) (List.mem_singleton_self _))
  | .mapping _ | .set _ | .pair _ _ | .loop _ => cases plain _ (List.mem_singleton_self _)

theorem textLength_leavesOf_le (items : List Value) (plain : ∀ leaf ∈ leavesOf items, leaf.isPlain = true) :
    textLength (leavesOf items) ≤ totalLength (shownItems items) := by
  match items with
  | [] => exact Nat.le_refl 0
  | v :: rest =>
      rw [leavesOf] at plain
      obtain ⟨first, others⟩ := List.forall_mem_append.mp plain
      have here := textLength_leaves_le v first
      have later := textLength_leavesOf_le rest others
      rw [leavesOf, textLength_append, shownItems, totalLength]
      omega

end

theorem isPlain_of_leaves {v : Value} (noList : ∀ items, v ≠ .list items)
    (plain : ∀ leaf ∈ v.leaves, leaf.isPlain = true) : v.isPlain = true := by
  cases v with
  | list items => exact absurd rfl (noList items)
  | _ => exact plain _ (List.mem_singleton_self _)

/-- The text of a list is longer than what the list is made of. -/
theorem textLength_leaves_lt {items : List Value} (plain : ∀ leaf ∈ leavesOf items, leaf.isPlain = true) :
    textLength (leavesOf items) < (Value.list items).text.length := by
  have inside := textLength_leavesOf_le items plain
  have around := length_shown_list items
  change _ < (Value.list items).shown.length
  omega

theorem textLength_leaves_le_text {v : Value} (plain : ∀ leaf ∈ v.leaves, leaf.isPlain = true) :
    textLength v.leaves ≤ v.text.length := by
  by_cases isList : ∃ items, v = .list items
  · obtain ⟨items, rfl⟩ := isList
    exact Nat.le_of_lt (textLength_leaves_lt plain)
  · have isPlain := isPlain_of_leaves (fun items same => isList ⟨items, same⟩) plain
    rw [leaves_of_isPlain isPlain]
    exact Nat.le_refl _

theorem textLength_leavesOf_le_textLength {vs : List Value}
    (plain : ∀ leaf ∈ leavesOf vs, leaf.isPlain = true) : textLength (leavesOf vs) ≤ textLength vs := by
  induction vs with
  | nil => exact Nat.le_refl 0
  | cons v rest ih =>
      obtain ⟨first, others⟩ := List.forall_mem_append.mp plain
      have here := textLength_leaves_le_text first
      have later := ih others
      rw [leavesOf, textLength_append, textLength_cons]
      omega

/-- Values with a list among them have longer texts than what they are made of. -/
theorem textLength_lt_of_mem {vs items : List Value} (there : .list items ∈ vs)
    (plain : ∀ leaf ∈ leavesOf vs, leaf.isPlain = true) : textLength (leavesOf vs) < textLength vs := by
  induction vs with
  | nil => cases there
  | cons v rest ih =>
      obtain ⟨first, others⟩ := List.forall_mem_append.mp plain
      rw [leavesOf, textLength_append, textLength_cons]
      rcases List.mem_cons.mp there with rfl | there
      · have longer := textLength_leaves_lt first
        have later := textLength_leavesOf_le_textLength others
        rw [leaves]
        omega
      · have longer := ih there others
        have here := textLength_leaves_le_text first
        omega

/-- Values have the texts of what they are made of, if that is plain, just where they are plain. -/
theorem map_text_eq_leaves_iff (vs : List Value) :
    (∀ leaf ∈ leavesOf vs, leaf.isPlain = true) ∧ vs.map text = (leavesOf vs).map text ↔
      ∀ v ∈ vs, v.isPlain = true := by
  constructor
  · rintro ⟨plain, same⟩ v there
    refine isPlain_of_leaves ?_ fun leaf mem => plain leaf ?_
    · rintro items rfl
      have longer := textLength_lt_of_mem there plain
      exact absurd (congrArg totalLength same) (Nat.ne_of_gt longer)
    · rw [leavesOf_eq_flatMap]
      exact List.mem_flatMap.mpr ⟨v, there, mem⟩
  · intro plain
    rw [leavesOf_of_isPlain plain]
    exact ⟨plain, rfl⟩

end Value

end Conveyor
