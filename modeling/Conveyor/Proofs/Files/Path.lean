import Conveyor.Files.Tree
import Mathlib.Data.List.Basic

/-!
Components of paths, and texts that spell them. Components without separators are read back from
the text that joins them.
-/

namespace Conveyor

/-- A component that names an entry of a directory. -/
def IsComponent (c : String) : Prop := c ≠ "" ∧ c ≠ "." ∧ c ≠ ".." ∧ '/' ∉ c.toList

/-- A component that the file system accepts for a new entry. -/
structure IsName (c : String) : Prop where
  component : IsComponent c
  noNul : '\x00' ∉ c.toList
  short : c.utf8ByteSize ≤ FileTree.nameLimit

instance (c : String) : Decidable (IsComponent c) := inferInstanceAs (Decidable (_ ∧ _ ∧ _ ∧ _))

theorem isName_iff (c : String) :
    IsName c ↔ IsComponent c ∧ '\x00' ∉ c.toList ∧ c.utf8ByteSize ≤ FileTree.nameLimit :=
  ⟨fun h => ⟨h.component, h.noNul, h.short⟩, fun h => ⟨h.1, h.2.1, h.2.2⟩⟩

instance (c : String) : Decidable (IsName c) := decidable_of_iff _ (isName_iff c).symm

theorem splitSlashes_ne_nil (cs : List Char) : splitSlashes cs ≠ [] := by
  cases cs with
  | nil => simp [splitSlashes]
  | cons c rest =>
      rw [splitSlashes]
      split
      · simp
      · split <;> simp

theorem splitSlashes_of_noSlash {cs : List Char} (h : '/' ∉ cs) : splitSlashes cs = [cs] := by
  induction cs with
  | nil => rfl
  | cons c rest ih =>
      simp only [List.mem_cons, not_or] at h
      simp [splitSlashes, ih h.2, Ne.symm h.1]

theorem splitSlashes_append {cs : List Char} (h : '/' ∉ cs) (rest : List Char) :
    splitSlashes (cs ++ '/' :: rest) = cs :: splitSlashes rest := by
  induction cs with
  | nil =>
      rw [List.nil_append, splitSlashes]
      match hrest : splitSlashes rest with
      | [] => exact absurd hrest (splitSlashes_ne_nil rest)
      | part :: parts => simp
  | cons c more ih =>
      simp only [List.mem_cons, not_or] at h
      simp [splitSlashes, ih h.2, Ne.symm h.1]

/-- The text of some components from which they are read back. -/
theorem splitSlashes_intercalate {parts : List String} (hne : parts ≠ [])
    (components : ∀ c ∈ parts, IsComponent c) :
    (splitSlashes ("/".intercalate parts).toList).map String.ofList = parts := by
  induction parts with
  | nil => exact absurd rfl hne
  | cons c rest ih =>
      have hslash := (components c (by simp)).2.2.2
      cases rest with
      | nil => simp [splitSlashes_of_noSlash hslash]
      | cons d more =>
          have next := ih (by simp) (fun x hx => components x (List.mem_cons_of_mem c hx))
          rw [String.intercalate_cons_cons]
          simp only [String.toList_append, List.append_assoc]
          rw [show ("/" : String).toList = ['/'] from rfl, List.singleton_append,
            splitSlashes_append hslash, List.map_cons, next, String.ofList_toList]

theorem pathParts_intercalate {parts : List String} (hne : parts ≠ [])
    (components : ∀ c ∈ parts, IsComponent c) : pathParts ("/".intercalate parts) = parts := by
  rw [pathParts, splitSlashes_intercalate hne components, List.filter_eq_self]
  intro c hc
  obtain ⟨hempty, hdot, -⟩ := components c hc
  simp [hempty, hdot]

theorem head_intercalate {parts : List String} (hne : parts ≠ [])
    (components : ∀ c ∈ parts, IsComponent c) :
    ∃ c cs, ("/".intercalate parts).toList = c :: cs ∧ c ≠ '/' := by
  obtain ⟨first, rest, rfl⟩ := List.exists_cons_of_ne_nil hne
  obtain ⟨hempty, -, -, hslash⟩ := components first (by simp)
  obtain ⟨c, cs, hfirst⟩ := List.exists_cons_of_ne_nil (mt String.toList_eq_nil_iff.mp hempty)
  have hc : c ≠ '/' := by
    rintro rfl
    simp [hfirst] at hslash
  cases rest with
  | nil => exact ⟨c, cs, by simp [hfirst], hc⟩
  | cons d more =>
      refine ⟨c, cs ++ "/".toList ++ ("/".intercalate (d :: more)).toList, ?_, hc⟩
      rw [String.intercalate_cons_cons]
      simp [hfirst]

theorem last_intercalate {parts : List String} (hne : parts ≠ [])
    (components : ∀ c ∈ parts, IsComponent c) :
    ∃ cs c, ("/".intercalate parts).toList = cs ++ [c] ∧ c ≠ '/' := by
  induction parts with
  | nil => exact absurd rfl hne
  | cons part rest ih =>
      cases rest with
      | nil =>
          obtain ⟨hempty, -, -, hslash⟩ := components part (by simp)
          have filled := mt String.toList_eq_nil_iff.mp hempty
          have text : ("/".intercalate [part]).toList = part.toList := by simp
          refine ⟨_, _, text.trans (List.dropLast_append_getLast filled).symm, fun last => hslash ?_⟩
          exact last ▸ List.getLast_mem filled
      | cons next more =>
          obtain ⟨cs, c, text, hc⟩ := ih (by simp) fun x hx => components x (List.mem_cons_of_mem part hx)
          refine ⟨part.toList ++ "/".toList ++ cs, c, ?_, hc⟩
          rw [String.intercalate_cons_cons, String.toList_append, String.toList_append, text]
          exact (List.append_assoc _ cs [c]).symm

theorem mem_intercalate {parts : List String} {c : Char} (h : c ∈ ("/".intercalate parts).toList) :
    c = '/' ∨ ∃ part ∈ parts, c ∈ part.toList := by
  induction parts with
  | nil => simp at h
  | cons part rest ih =>
      cases rest with
      | nil => exact .inr ⟨part, by simp, by simpa using h⟩
      | cons next more =>
          rw [String.intercalate_cons_cons, String.toList_append, String.toList_append] at h
          rcases List.mem_append.mp h with h | h
          · rcases List.mem_append.mp h with h | h
            · exact .inr ⟨part, by simp, h⟩
            · exact .inl (List.mem_singleton.mp h)
          · rcases ih h with h | ⟨p, hp, hc⟩
            · exact .inl h
            · exact .inr ⟨p, List.mem_cons_of_mem _ hp, hc⟩

theorem Path.ofText_intercalate {parts : List String} (hne : parts ≠ [])
    (components : ∀ c ∈ parts, IsComponent c) :
    Path.ofText ("/".intercalate parts) = ⟨"", parts⟩ := by
  obtain ⟨c, cs, htext, hc⟩ := head_intercalate hne components
  simp [Path.ofText, htext, hc, pathParts_intercalate hne components]

end Conveyor
