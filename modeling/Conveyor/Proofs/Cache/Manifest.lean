import Conveyor.Cache.Manifest
import Conveyor.Files.Content
import Conveyor.Proofs.Text.Spelling

/-!
What a manifest tells can be read off its text. A spelled character is never a quotation mark and ends
where it ends, whatever comes after it; so the text of a string ends at its first mark, and that of a list
at the first string without a comma after it.
-/

namespace Conveyor.Manifest

open Conveyor.Text

/-- The character below the blank with some digits. -/
def controlChar? (digits : List Char) : Option Char :=
  ((List.range 0x20).find? fun n => hexDigits 4 n == digits).map Char.ofNat

/-- Reads one spelled character. -/
def readChar? : List Char → Option (Char × List Char)
  | '\\' :: 'n' :: rest => some ('\n', rest)
  | '\\' :: 'r' :: rest => some ('\r', rest)
  | '\\' :: 't' :: rest => some ('\t', rest)
  | '\\' :: 'f' :: rest => some ('\x0c', rest)
  | '\\' :: 'b' :: rest => some ('\x08', rest)
  | '\\' :: 'u' :: rest => (controlChar? (rest.take 4)).map (·, rest.drop 4)
  | '\\' :: c :: rest => some (c, rest)
  | c :: rest => if c = '\x22' then none else some (c, rest)
  | [] => none

theorem length_hexDigits (width n : Nat) : (hexDigits width n).length = width := by
  induction width generalizing n with
  | zero => rfl
  | succ width ih => rw [hexDigits, List.length_append, ih, List.length_singleton]

theorem controlChar?_hexDigits {n : Nat} (h : n < 0x20) :
    controlChar? (hexDigits 4 n) = some (Char.ofNat n) := by
  have found : ∀ n < 0x20, (List.range 0x20).find? (fun m => hexDigits 4 m == hexDigits 4 n) = some n := by
    decide
  rw [controlChar?, found n h]
  rfl

theorem readChar?_jsonChar (c : Char) (rest : List Char) :
    readChar? (jsonChar c ++ rest) = some (c, rest) := by
  unfold jsonChar
  split_ifs with marks line ret tab feed back control
  · rcases marks with rfl | rfl <;> rfl
  · rw [line]; rfl
  · rw [ret]; rfl
  · rw [tab]; rfl
  · rw [feed]; rfl
  · rw [back]; rfl
  · have digits := length_hexDigits 4 c.toNat
    simp only [List.cons_append, readChar?, List.take_left' digits, List.drop_left' digits,
      controlChar?_hexDigits control, Option.map_some, Char.ofNat_toNat]
  · obtain ⟨mark, slash⟩ := not_or.mp marks
    simp [readChar?, mark, slash]

/-- The text of a string ends where it ends. -/
theorem flatMap_jsonChar_cancel {cs ds l m : List Char}
    (h : cs.flatMap jsonChar ++ '\x22' :: l = ds.flatMap jsonChar ++ '\x22' :: m) : cs = ds ∧ l = m := by
  have ended (rest : List Char) : readChar? ('\x22' :: rest) = none := rfl
  induction cs generalizing ds with
  | nil =>
      cases ds with
      | nil => exact ⟨rfl, (List.cons.inj h).2⟩
      | cons d ds =>
          have read := congrArg readChar? h
          rw [List.flatMap_cons, List.append_assoc, readChar?_jsonChar] at read
          cases read
  | cons c cs ih =>
      have read := congrArg readChar? h
      rw [List.flatMap_cons, List.append_assoc, readChar?_jsonChar] at read
      cases ds with
      | nil => cases read
      | cons d ds =>
          rw [List.flatMap_cons, List.append_assoc, readChar?_jsonChar] at read
          obtain ⟨rfl, others⟩ := Prod.mk.inj (Option.some.inj read)
          obtain ⟨rfl, after⟩ := ih others
          exact ⟨rfl, after⟩

theorem jsonText_cancel {s t : String} {l m : List Char}
    (h : (jsonText s).toList ++ l = (jsonText t).toList ++ m) : s = t ∧ l = m := by
  simp only [jsonText, String.toList_ofList, List.cons_append, List.append_assoc, List.cons.injEq,
    true_and] at h
  obtain ⟨same, after⟩ := flatMap_jsonChar_cancel h
  exact ⟨String.toList_injective same, after⟩

/-- The text of the items after the first. -/
def laterItems (items : List String) : List Char :=
  items.flatMap fun i => ",\n    ".toList ++ (jsonText i).toList

theorem laterItems_cancel {items others : List String} {l m : List Char}
    (h : laterItems items ++ '\n' :: l = laterItems others ++ '\n' :: m) : items = others ∧ l = m := by
  induction items generalizing others with
  | nil =>
      cases others with
      | nil => exact ⟨rfl, (List.cons.inj h).2⟩
      | cons i rest => cases (List.cons.inj h).1
  | cons i rest ih =>
      cases others with
      | nil => cases (List.cons.inj h).1
      | cons j others =>
          simp only [laterItems, List.flatMap_cons, List.append_assoc, List.append_cancel_left_eq] at h
          obtain ⟨rfl, later⟩ := jsonText_cancel h
          obtain ⟨rfl, after⟩ := ih later
          exact ⟨rfl, after⟩

theorem toList_intercalate_items (i : String) (rest : List String) :
    (",\n".intercalate ((i :: rest).map fun i => "    " ++ jsonText i)).toList =
      "    ".toList ++ (jsonText i).toList ++ laterItems rest := by
  induction rest generalizing i with
  | nil => simp [laterItems]
  | cons j rest ih =>
      have rest := ih j
      rw [List.map_cons] at rest
      rw [List.map_cons, List.map_cons, String.intercalate_cons_cons, String.toList_append, rest]
      simp [laterItems]

theorem toList_jsonList_cons (i : String) (rest : List String) :
    (jsonList (i :: rest)).toList =
      '[' :: '\n' :: ("    ".toList ++ (jsonText i).toList ++ laterItems rest ++ '\n' :: "  ]".toList) := by
  rw [jsonList, if_neg (by simp), String.toList_append, String.toList_append, toList_intercalate_items]
  simp

theorem toList_jsonList_nil : (jsonList []).toList = ['[', ']'] := rfl

theorem jsonList_cancel {items others : List String} {l m : List Char}
    (h : (jsonList items).toList ++ l = (jsonList others).toList ++ m) : items = others ∧ l = m := by
  cases items with
  | nil =>
      cases others with
      | nil => exact ⟨rfl, List.append_cancel_left h⟩
      | cons j others =>
          rw [toList_jsonList_nil, toList_jsonList_cons] at h
          cases (List.cons.inj (List.cons.inj h).2).1
  | cons i rest =>
      cases others with
      | nil =>
          rw [toList_jsonList_nil, toList_jsonList_cons] at h
          cases (List.cons.inj (List.cons.inj h).2).1
      | cons j others =>
          simp only [toList_jsonList_cons, List.cons_append, List.append_assoc, List.cons.injEq, true_and,
            List.append_cancel_left_eq] at h
          obtain ⟨rfl, later⟩ := jsonText_cancel h
          obtain ⟨rfl, ending⟩ := laterItems_cancel later
          exact ⟨rfl, List.append_cancel_left ending⟩

/-- Manifests with one text tell the same. -/
theorem text_determines {m n : Manifest} (h : m.text = n.text) :
    m.key = n.key ∧ m.paths = n.paths ∧ m.files = n.files := by
  have h := congrArg String.toList h
  simp only [text, List.map_cons, List.map_nil, String.intercalate_cons_cons, String.intercalate_singleton,
    String.toList_append, List.append_assoc, List.append_cancel_left_eq] at h
  obtain ⟨files, afterFiles⟩ := jsonList_cancel h
  simp only [List.append_cancel_left_eq] at afterFiles
  obtain ⟨key, afterKey⟩ := jsonText_cancel afterFiles
  simp only [List.append_cancel_left_eq] at afterKey
  obtain ⟨paths, -⟩ := jsonList_cancel afterKey
  exact ⟨key, paths, files⟩

/-- Some content is the text of manifests, which all tell one key and some files in one order. -/
def Lists (c : Content) (key : String) (files : List String) : Prop :=
  (∃ m : Manifest, c = .ofText m.text) ∧ ∀ m : Manifest, c = .ofText m.text → m.key = key ∧ m.files = files

theorem lists_text (m : Manifest) : Lists (.ofText m.text) m.key m.files := by
  refine ⟨⟨m, rfl⟩, fun n same => ?_⟩
  obtain ⟨key, -, files⟩ := text_determines (encode_injective (Content.bytes.inj same))
  exact ⟨key.symm, files.symm⟩

theorem Lists.unique {c : Content} {key other : String} {files others : List String} (h : Lists c key files)
    (h' : Lists c other others) : key = other ∧ files = others := by
  obtain ⟨m, text⟩ := h.1
  obtain ⟨rfl, rfl⟩ := h.2 m text
  exact h'.2 m text

end Conveyor.Manifest
