import Conveyor.Environment
import Mathlib.Data.List.Basic

/-!
References to variables. A value splits in one way into references and other characters: at each
place from left to right a reference is taken if one starts there, in its braces or as far as its name
goes, and any other character stands for itself. The expansion puts the text of a variable in the place
of each reference that is bound, and keeps all else; so it depends on the referenced names alone.
-/

namespace Conveyor

open Conveyor.Text

/-- A letter of ASCII or the underscore. -/
def StartsName (c : Char) : Prop := 'A' ≤ c ∧ c ≤ 'Z' ∨ 'a' ≤ c ∧ c ≤ 'z' ∨ c = '_'

/-- A letter or a digit of ASCII, or the underscore. -/
def ContinuesName (c : Char) : Prop := StartsName c ∨ '0' ≤ c ∧ c ≤ '9'

theorem isUpper_iff (c : Char) : c.isUpper = true ↔ 'A' ≤ c ∧ c ≤ 'Z' :=
  decide_eq_true_iff

theorem isLower_iff (c : Char) : c.isLower = true ↔ 'a' ≤ c ∧ c ≤ 'z' :=
  Bool.and_eq_true_iff.trans (and_congr decide_eq_true_iff decide_eq_true_iff)

theorem isDigit_iff (c : Char) : c.isDigit = true ↔ '0' ≤ c ∧ c ≤ '9' :=
  Bool.and_eq_true_iff.trans (and_congr decide_eq_true_iff decide_eq_true_iff)

theorem isAlpha_iff (c : Char) : c.isAlpha = true ↔ c.isUpper = true ∨ c.isLower = true :=
  Bool.or_eq_true_iff

theorem isAlphanum_iff (c : Char) : c.isAlphanum = true ↔ c.isAlpha = true ∨ c.isDigit = true :=
  Bool.or_eq_true_iff

theorem isNameStart_iff (c : Char) : isNameStart c = true ↔ StartsName c := by
  simp only [isNameStart, StartsName, Bool.or_eq_true, beq_iff_eq, isAlpha_iff, isUpper_iff,
    isLower_iff, or_assoc]

theorem isNameChar_iff (c : Char) : isNameChar c = true ↔ ContinuesName c := by
  rw [ContinuesName, ← isNameStart_iff, ← isDigit_iff]
  simp only [isNameChar, isNameStart, Bool.or_eq_true, isAlphanum_iff, or_right_comm]

/-- An identifier of ASCII. -/
inductive IsIdentifier : List Char → Prop
  | mk {c : Char} {rest : List Char} (start : StartsName c) (others : ∀ d ∈ rest, ContinuesName d) :
      IsIdentifier (c :: rest)

/-- A reference to a name as it is written, before the rest of a value. Without braces the name is as
long as it can be. -/
inductive IsReference (name : List Char) : (written rest : List Char) → Prop
  | braced {rest : List Char} (h : IsIdentifier name) :
      IsReference name ('$' :: '\x7b' :: (name ++ ['\x7d'])) rest
  | bare {rest : List Char} (h : IsIdentifier name) (longest : ∀ c ∈ rest.head?, ¬ ContinuesName c) :
      IsReference name ('$' :: name) rest

/-- A value split from left to right. A character stands for itself only where no reference starts. -/
inductive Splits : List Char → List Segment → Prop
  | done : Splits [] []
  | reference {name written rest : List Char} {segs : List Segment}
      (h : IsReference name written rest) (later : Splits rest segs) :
      Splits (written ++ rest) (.reference name written :: segs)
  | plain {c : Char} {rest : List Char} {segs : List Segment}
      (none : ∀ name written after, IsReference name written after → written ++ after ≠ c :: rest)
      (later : Splits rest segs) : Splits (c :: rest) (.plain c :: segs)

/-- The characters of a value that a stretch of it takes. -/
def Segment.text : Segment → List Char
  | .reference _ written => written
  | .plain c => [c]

section Name

variable {name rest : List Char}

theorem leadingName_append (h : IsIdentifier name) (longest : ∀ c ∈ rest.head?, ¬ ContinuesName c) :
    leadingName (name ++ rest) = name := by
  obtain ⟨start, others⟩ := h
  rename_i c more
  have all : ∀ d ∈ more, isNameChar d = true := fun d hd => (isNameChar_iff d).mpr (others d hd)
  have stop : rest.takeWhile isNameChar = [] := by
    cases rest with
    | nil => rfl
    | cons d after => exact List.takeWhile_cons_of_neg (mt (isNameChar_iff d).mp (longest d rfl))
  rw [List.cons_append, leadingName, if_pos ((isNameStart_iff c).mpr start),
    List.takeWhile_append_of_pos all, stop, List.append_nil]

/-- A leading name is the longest identifier at the start. -/
theorem leadingName_spec {cs : List Char} (found : leadingName cs ≠ []) :
    ∃ after, cs = leadingName cs ++ after ∧ IsIdentifier (leadingName cs) ∧
      ∀ c ∈ after.head?, ¬ ContinuesName c := by
  cases cs with
  | nil => exact absurd rfl found
  | cons c rest =>
      by_cases start : isNameStart c = true
      · rw [leadingName, if_pos start]
        refine ⟨rest.dropWhile isNameChar, ?_, .mk ((isNameStart_iff c).mp start) ?_, ?_⟩
        · rw [List.cons_append, List.takeWhile_append_dropWhile]
        · intro d hd
          exact (isNameChar_iff d).mp (List.all_eq_true.mp List.all_takeWhile d hd)
        · intro d hd
          have stops := List.head?_dropWhile_not isNameChar rest
          rw [Option.mem_def.mp hd] at stops
          simpa [← isNameChar_iff] using stops
      · exact absurd (if_neg start) found

theorem IsIdentifier.ne_nil (h : IsIdentifier name) : name ≠ [] := by
  cases h
  exact List.cons_ne_nil _ _

end Name

/-- A reference is found at the dollar sign that it starts with. -/
theorem IsReference.referenceAt?_eq {name taken rest : List Char}
    (h : IsReference name ('$' :: taken) rest) :
    referenceAt? (taken ++ rest) = some (name, taken.length) := by
  cases h with
  | braced h =>
      have close : leadingName (name ++ ('\x7d' :: rest)) = name :=
        leadingName_append h (by simp [ContinuesName, StartsName])
      have open_ : leadingName ('\x7b' :: (name ++ ('\x7d' :: rest))) = [] := by
        rw [leadingName, if_neg (by decide)]
      simp [referenceAt?, open_, close, h.ne_nil]
  | bare h longest =>
      simp [referenceAt?, leadingName_append h longest, h.ne_nil]

/-- What is found after a dollar sign is a reference. -/
theorem isReference_of_referenceAt? {rest name : List Char} {n : Nat}
    (h : referenceAt? rest = some (name, n)) :
    IsReference name ('$' :: rest.take n) (rest.drop n) := by
  simp only [referenceAt?, Bool.not_eq_true', List.isEmpty_eq_false_iff] at h
  split at h
  · rename_i found
    obtain ⟨after, split, identifier, longest⟩ := leadingName_spec found
    obtain ⟨rfl, rfl⟩ := Prod.mk.inj (Option.some.inj h)
    generalize leadingName rest = name at *
    subst split
    rw [List.take_left, List.drop_left]
    exact .bare identifier longest
  · split at h
    · rename_i rest _
      split at h
      · rename_i found
        simp only [Bool.and_eq_true, Bool.not_eq_true', List.isEmpty_eq_false_iff,
          decide_eq_true_eq] at found
        obtain ⟨after, split, identifier, -⟩ := leadingName_spec found.1
        obtain ⟨rfl, rfl⟩ := Prod.mk.inj (Option.some.inj h)
        generalize leadingName rest = name at *
        subst split
        rw [List.drop_left] at found
        obtain ⟨tail, rfl⟩ := List.head?_eq_some_iff.mp found.2
        have written : ('\x7b' :: (name ++ '\x7d' :: tail)).take (name.length + 2) =
            '\x7b' :: (name ++ ['\x7d']) := by
          simp [List.take_append, List.take_of_length_le]
        have left : ('\x7b' :: (name ++ '\x7d' :: tail)).drop (name.length + 2) = tail := by
          simp [List.drop_append]
        rw [written, left]
        exact .braced identifier
      · cases h
    · cases h

theorem IsReference.starts {name written rest : List Char} (h : IsReference name written rest) :
    ∃ taken, written = '$' :: taken := by
  cases h
  · exact ⟨_, rfl⟩
  · exact ⟨_, rfl⟩

theorem splits_segments (cs : List Char) : Splits cs (segments cs) := by
  induction cs using segments.induct with
  | case1 =>
      rw [segments]
      exact .done
  | case2 rest name n found ih =>
      have split : '$' :: rest = ('$' :: rest.take n) ++ rest.drop n := by
        rw [List.cons_append, List.take_append_drop]
      rw [segments, if_pos rfl, found]
      dsimp only
      rw [split]
      exact .reference (isReference_of_referenceAt? found) ih
  | case3 rest none ih =>
      rw [segments, if_pos rfl, none]
      refine .plain (fun name written after h same => ?_) ih
      obtain ⟨taken, rfl⟩ := h.starts
      have found : taken ++ after = rest := (List.cons.inj same).2
      rw [← found, h.referenceAt?_eq] at none
      cases none
  | case4 c rest other ih =>
      rw [segments, if_neg other]
      refine .plain (fun name written after h same => ?_) ih
      obtain ⟨taken, rfl⟩ := h.starts
      exact other (List.cons.inj same).1.symm

/-- The induction is on the split: what stands first in it decides what the scanner finds. -/
theorem Splits.eq_segments {cs : List Char} {segs : List Segment} (h : Splits cs segs) :
    segs = segments cs := by
  induction h with
  | done => rw [segments]
  | @reference name written rest segs h _ ih =>
      obtain ⟨taken, rfl⟩ := h.starts
      rw [List.cons_append, segments, if_pos rfl, h.referenceAt?_eq]
      dsimp only
      rw [List.take_left, List.drop_left, ih]
  | @plain c rest segs none _ ih =>
      rw [segments]
      split
      · rename_i dollar
        subst dollar
        split
        · rename_i name n found
          refine absurd ?_ (none name _ _ (isReference_of_referenceAt? found))
          rw [List.cons_append, List.take_append_drop]
        · rw [ih]
      · rw [ih]

theorem Splits.text {cs : List Char} {segs : List Segment} (h : Splits cs segs) :
    segs.flatMap Segment.text = cs := by
  induction h with
  | done => rfl
  | reference _ _ ih => rw [List.flatMap_cons, ih, Segment.text]
  | plain _ _ ih =>
      rw [List.flatMap_cons, ih, Segment.text]
      rfl

/-- A value refers to a variable. -/
def Refers (value name : String) : Prop :=
  ∃ segs written, Splits value.toList segs ∧ Segment.reference name.toList written ∈ segs

theorem refers_iff (value name : String) : Refers value name ↔
    ∃ written, Segment.reference name.toList written ∈ segments value.toList := by
  constructor
  · rintro ⟨segs, written, split, hmem⟩
    exact ⟨written, split.eq_segments ▸ hmem⟩
  · rintro ⟨written, hmem⟩
    exact ⟨_, written, splits_segments _, hmem⟩

namespace Environment

/-- The expansion depends on the variables that the value refers to. -/
theorem expand_congr {env env' : Environment} {value : String}
    (agree : ∀ name, Refers value name → env.get? name = env'.get? name) :
    env.expand value = env'.expand value := by
  have same : ∀ s ∈ segments value.toList, env.expandSegment s = env'.expandSegment s := by
    intro s hs
    cases s with
    | plain c => rfl
    | reference name written =>
        have referred : Refers value (String.ofList name) :=
          (refers_iff value _).mpr ⟨written, by rwa [String.toList_ofList]⟩
        rw [expandSegment, expandSegment, agree _ referred]
  rw [expand, expand, List.flatMap_congr same]

/-- A value splits in one way. Its expansion has the text of a variable in the place of each reference
to a variable that is bound, as the text is, and each other character and reference as the value has it;
it is the same in environments that agree on the variables that are referred to. -/
theorem expand_replaces_bound_references (value : String) : ∃ segs : List Segment,
    (∀ other, Splits value.toList other ↔ other = segs) ∧
    segs.flatMap Segment.text = value.toList ∧
    (∀ env : Environment, (env.expand value).toList = segs.flatMap fun
      | .reference name written =>
        match env.get? (String.ofList name) with
        | some bound => bound.toList
        | none => written
      | .plain c => [c]) ∧
    ∀ env env' : Environment, (∀ name written, Segment.reference name written ∈ segs →
        env.get? (String.ofList name) = env'.get? (String.ofList name)) →
      env.expand value = env'.expand value := by
  have split := splits_segments value.toList
  refine ⟨segments value.toList, fun other => ⟨Splits.eq_segments, fun h => h ▸ split⟩, split.text,
    fun env => ?_, fun env env' agree => expand_congr fun name referred => ?_⟩
  · rw [expand, String.toList_ofList]
    exact List.flatMap_congr fun s _ => by cases s <;> rfl
  · obtain ⟨written, hmem⟩ := (refers_iff value name).mp referred
    simpa only [String.ofList_toList] using agree name.toList written hmem

/-- Dollar signs that start no reference, references to what is not bound, and a text that looks like a
reference and is put in as it is. -/
def sampleValue : String := "a$$X-$\x7bY\x7d$\x7bZ$Xé$1$N"

def sampleEnvironment : Environment := [("X", "$Y"), ("Y", "2")]

/-- What the value does not refer to may be bound or not. -/
theorem expand_sampleValue :
    sampleEnvironment.expand sampleValue = "a$$Y-2$\x7bZ$Yé$1$N" ∧
      expand (sampleEnvironment.put "Z" "3") sampleValue = "a$$Y-2$\x7bZ$Yé$1$N" := by
  obtain ⟨segs, split, -, replaced, same⟩ := expand_replaces_bound_references sampleValue
  have segments_eq : segs = segments sampleValue.toList :=
    ((split _).mp (splits_segments _)).symm
  have listed : segments sampleValue.toList = [.plain 'a', .plain '$', .reference ['X'] ['$', 'X'],
      .plain '-', .reference ['Y'] ['$', '\x7b', 'Y', '\x7d'], .plain '$', .plain '\x7b', .plain 'Z',
      .reference ['X'] ['$', 'X'], .plain 'é', .plain '$', .plain '1',
      .reference ['N'] ['$', 'N']] := by
    decide +kernel
  have agree : sampleEnvironment.expand sampleValue =
      expand (sampleEnvironment.put "Z" "3") sampleValue := by
    apply same
    intro name written hmem
    rw [segments_eq, listed] at hmem
    simp only [List.mem_cons, reduceCtorEq, Segment.reference.injEq, false_or, List.not_mem_nil,
      or_false] at hmem
    rcases hmem with ⟨rfl, -⟩ | ⟨rfl, -⟩ | ⟨rfl, -⟩ | ⟨rfl, -⟩ <;> rfl
  have value : sampleEnvironment.expand sampleValue = "a$$Y-2$\x7bZ$Yé$1$N" := by
    apply String.toList_injective
    rw [replaced, segments_eq, listed]
    rfl
  exact ⟨value, agree ▸ value⟩

end Environment

end Conveyor
