import Conveyor.Text.Blank
import Conveyor.Text.Lowercase
import Mathlib.Data.List.DropRight

/-!
Trimming and lower-casing a second time. No run of the shift table leads to a code point that a run
starts from, so small letters stand for themselves; and none leads to white space, so what is trimmed
stays trimmed in lower case.
-/

namespace Conveyor.Text

theorem toNat_ofNat {n : Nat} (h : n.isValidChar) : (Char.ofNat n).toNat = n := by
  rw [Char.ofNat, dif_pos h]
  rfl

namespace CaseShift

/-- The code points that a run leads to. -/
def image (s : CaseShift) : CaseShift :=
  ⟨(s.first + s.delta).toNat, (s.last + s.delta).toNat, s.step, 0⟩

/-- Two runs have no code point in common: one ends before the other, or they take turns. -/
def isApart (r s : CaseShift) : Bool :=
  Nat.blt r.last s.first || Nat.blt s.last r.first ||
    (Nat.beq s.step 2 && (Nat.beq r.step 2 || Nat.beq r.first r.last) &&
      Nat.beq ((r.first + s.first) % 2) 1)

theorem covers_iff (s : CaseShift) (c : Char) :
    s.covers c = true ↔ (s.first ≤ c.toNat ∧ c.toNat ≤ s.last) ∧ (c.toNat - s.first) % s.step = 0 := by
  simp [covers]

theorem not_covers_of_isApart {r s : CaseShift} (apart : r.isApart s = true) {c : Char}
    (h : r.covers c = true) : s.covers c = false := by
  rw [Bool.eq_false_iff]
  intro hs
  obtain ⟨⟨hfirst, hlast⟩, hstep⟩ := (covers_iff r c).mp h
  obtain ⟨⟨sfirst, slast⟩, sstep⟩ := (covers_iff s c).mp hs
  simp only [isApart, Bool.or_eq_true, Bool.and_eq_true, Nat.blt_eq, Nat.beq_eq] at apart
  rcases apart with (before | after) | ⟨⟨two, both | one⟩, turns⟩
  · omega
  · omega
  · rw [two] at sstep
    rw [both] at hstep
    omega
  · rw [two] at sstep
    omega

/-- A run leads to code points of characters. -/
def isSound (s : CaseShift) : Bool :=
  decide (0 ≤ s.first + s.delta ∧
    (s.last + s.delta < 0xd800 ∨ 0xdfff < s.first + s.delta ∧ s.last + s.delta < 0x110000))

theorem covers_image {s : CaseShift} (sound : s.isSound = true) {c : Char} (h : s.covers c = true) :
    s.image.covers (Char.ofNat (c.toNat + s.delta).toNat) = true := by
  obtain ⟨⟨hfirst, hlast⟩, hstep⟩ := (covers_iff s c).mp h
  obtain ⟨hlow, hvalid⟩ : 0 ≤ s.first + s.delta ∧ _ := of_decide_eq_true sound
  have valid : (c.toNat + s.delta).toNat.isValidChar := by
    rcases hvalid with h | ⟨h, h'⟩
    · exact .inl (by omega)
    · exact .inr ⟨by omega, by omega⟩
  have gap : (c.toNat + s.delta).toNat - (s.first + s.delta).toNat = c.toNat - s.first := by omega
  rw [covers_iff, toNat_ofNat valid]
  dsimp only [image]
  exact ⟨by omega, by rw [gap, hstep]⟩

end CaseShift

/-- The runs of all characters that have a small letter. -/
def capitals : List CaseShift := ⟨0x130, 0x130, 1, 0⟩ :: lowerShifts

/-- A character that is its own small letter. -/
def IsSmall (c : Char) : Prop := ∀ s ∈ capitals, s.covers c = false

def blankRuns : List CaseShift := blankRanges.map fun r => ⟨r.1, r.2, 1, 0⟩

theorem lowerShifts_sound : lowerShifts.all CaseShift.isSound = true := by decide +kernel

theorem image_isApart : ((lowerShifts.map CaseShift.image).all fun r =>
    (capitals ++ blankRuns).all r.isApart) = true := by decide +kernel

/-- Only the run of the Latin capitals lies below the code points that a table decides. -/
theorem capitals_of_ascii :
    capitals.all (fun s => s == ⟨0x41, 0x5a, 1, 32⟩ || Nat.ble 0x80 s.first) = true := by
  decide +kernel

theorem isSmall_of_ascii {c : Char} (hc : c.toNat < 0x80) (h : ¬ (0x41 ≤ c.toNat ∧ c.toNat ≤ 0x5a)) :
    IsSmall c := by
  intro s hs
  rw [Bool.eq_false_iff, Ne, CaseShift.covers_iff]
  rintro ⟨bounds, -⟩
  rcases Bool.or_eq_true_iff.mp (List.all_eq_true.mp capitals_of_ascii s hs) with latin | above
  · rw [eq_of_beq latin] at bounds
    exact h bounds
  · have := Nat.le_of_ble_eq_true above
    omega

theorem inRanges_of_isBlank {c : Char} (h : isBlank c = true) : ∃ s ∈ blankRuns, s.covers c = true := by
  have inside : ∃ r ∈ blankRanges, r.1 ≤ c.toNat ∧ c.toNat ≤ r.2 := by
    rw [isBlank] at h
    split at h
    · simp only [Bool.or_eq_true, Bool.and_eq_true, decide_eq_true_eq] at h
      rcases h with h | h
      · exact ⟨(0x9, 0xd), by decide, h⟩
      · exact ⟨(0x1c, 0x20), by decide, h⟩
    · simpa [inRanges] using h
  obtain ⟨r, hr, bounds⟩ := inside
  exact ⟨⟨r.1, r.2, 1, 0⟩, List.mem_map_of_mem hr,
    by simpa [CaseShift.covers_iff, Nat.mod_one] using bounds⟩

theorem isSmall_of_isApart {c : Char}
    (apart : (capitals ++ blankRuns).all (CaseShift.isApart ⟨c.toNat, c.toNat, 1, 0⟩) = true) :
    IsSmall c ∧ isBlank c = false := by
  have alone : CaseShift.covers ⟨c.toNat, c.toNat, 1, 0⟩ c = true := by simp [CaseShift.covers]
  have uncovered : ∀ s ∈ capitals ++ blankRuns, s.covers c = false := fun s hs =>
    CaseShift.not_covers_of_isApart (List.all_eq_true.mp apart s hs) alone
  refine ⟨fun s hs => uncovered s (List.mem_append_left _ hs), Bool.eq_false_iff.mpr fun blank => ?_⟩
  obtain ⟨s, hs, covered⟩ := inRanges_of_isBlank blank
  rw [uncovered s (List.mem_append_right _ hs)] at covered
  cases covered

theorem shiftCase_eq (c : Char) :
    shiftCase lowerShifts c = c ∧ (∀ s ∈ lowerShifts, s.covers c = false) ∨
      ∃ r ∈ lowerShifts, r.image.covers (shiftCase lowerShifts c) = true := by
  rw [shiftCase]
  split
  · rename_i s found
    have hs := List.mem_of_find?_eq_some found
    have covered := List.find?_some found
    exact .inr ⟨s, hs, CaseShift.covers_image (List.all_eq_true.mp lowerShifts_sound s hs) covered⟩
  · rename_i none
    exact .inl ⟨rfl, fun s hs => by simpa using List.find?_eq_none.mp none s hs⟩

/-- What a run of the table leads to is neither a capital nor white space. -/
theorem not_covers_image {r s : CaseShift} (hr : r ∈ lowerShifts) (hs : s ∈ capitals ++ blankRuns)
    {c : Char} (h : r.image.covers c = true) : s.covers c = false :=
  CaseShift.not_covers_of_isApart
    (List.all_eq_true.mp (List.all_eq_true.mp image_isApart _ (List.mem_map_of_mem hr)) s hs) h

theorem toLower_eq (c : Char) : c.toLower = c ∧ ¬ (0x41 ≤ c.toNat ∧ c.toNat ≤ 0x5a) ∨
    (0x41 ≤ c.toNat ∧ c.toNat ≤ 0x5a) ∧ c.toLower.toNat = c.toNat + 32 := by
  have upper : (c.val ≥ 'A'.val ∧ c.val ≤ 'Z'.val) ↔ (0x41 ≤ c.toNat ∧ c.toNat ≤ 0x5a) := by
    simp only [ge_iff_le, UInt32.le_iff_toNat_le]
    exact Iff.rfl
  unfold Char.toLower
  split
  · rename_i h
    have bounds : 0x41 ≤ c.val.toNat ∧ c.val.toNat ≤ 0x5a := upper.mp h
    refine .inr ⟨bounds, ?_⟩
    show (c.val + 32).toNat = c.val.toNat + 32
    rw [UInt32.toNat_add]
    simp only [UInt32.reduceToNat]
    omega
  · rename_i h
    exact .inl ⟨rfl, mt upper.mpr h⟩

/-- A small letter is made of small letters, and of no white space unless the letter is white space. -/
theorem lowerChar_spec (c : Char) : lowerChar c ≠ [] ∧ ∀ d ∈ lowerChar c,
    IsSmall d ∧ (isBlank c = false → isBlank d = false) := by
  rw [lowerChar]
  split
  · rename_i ascii
    refine ⟨by simp, fun d hd => ?_⟩
    rw [List.mem_singleton.mp hd]
    rcases toLower_eq c with ⟨same, small⟩ | ⟨upper, shifted⟩
    · rw [same]
      exact ⟨isSmall_of_ascii ascii small, id⟩
    · refine ⟨isSmall_of_ascii (by omega) (by omega), fun _ => ?_⟩
      rw [isBlank, if_pos (by omega)]
      simp only [Bool.or_eq_false_iff, Bool.and_eq_false_iff, decide_eq_false_iff_not]
      omega
  · split
    · refine ⟨by simp, fun d hd => ?_⟩
      have small : IsSmall d ∧ isBlank d = false := by
        rcases List.mem_pair.mp hd with rfl | rfl <;> exact isSmall_of_isApart (by decide +kernel)
      exact ⟨small.1, fun _ => small.2⟩
    · rename_i undotted
      refine ⟨by simp, fun d hd => ?_⟩
      rw [List.mem_singleton.mp hd]
      rcases shiftCase_eq c with ⟨same, uncovered⟩ | ⟨r, hr, moved⟩
      · rw [same]
        refine ⟨List.forall_mem_cons.mpr ⟨?_, uncovered⟩, id⟩
        rw [Bool.eq_false_iff, Ne, CaseShift.covers_iff]
        rintro ⟨⟨low, high⟩, -⟩
        exact undotted (Char.toNat_inj.mp (Nat.le_antisymm high low))
      · refine ⟨fun s hs => not_covers_image hr (List.mem_append_left _ hs) moved, fun _ => ?_⟩
        rw [Bool.eq_false_iff]
        intro blank
        obtain ⟨s, hs, covered⟩ := inRanges_of_isBlank blank
        rw [not_covers_image hr (List.mem_append_right _ hs) moved] at covered
        cases covered

theorem IsSmall.lowerChar_eq {c : Char} (small : IsSmall c) : lowerChar c = [c] := by
  have undotted : c ≠ '\u0130' := by
    rintro rfl
    exact absurd (small ⟨0x130, 0x130, 1, 0⟩ List.mem_cons_self) (by decide)
  rw [lowerChar, if_neg undotted]
  split
  · have latin := small ⟨0x41, 0x5a, 1, 32⟩ (by decide)
    rcases toLower_eq c with ⟨same, -⟩ | ⟨upper, -⟩
    · rw [same]
    · rw [Bool.eq_false_iff, Ne, CaseShift.covers_iff] at latin
      exact absurd ⟨upper, Nat.mod_one _⟩ latin
  · have uncovered : lowerShifts.find? (·.covers c) = none :=
      List.find?_eq_none.mpr fun s hs => by simp [small s (List.mem_cons_of_mem _ hs)]
    rw [shiftCase, uncovered]

theorem IsSmall.ne_sigma {c : Char} (small : IsSmall c) : c ≠ '\u03a3' := by
  rintro rfl
  exact absurd (small ⟨0x3a3, 0x3ab, 1, 32⟩ (by decide)) (by decide)

/-- One character in lower case: small letters take its place. -/
theorem lowerFrom_cons (before : List Char) (c : Char) (rest : List Char) : ∃ small ≠ [],
    (∀ d ∈ small, IsSmall d ∧ (isBlank c = false → isBlank d = false)) ∧
      lowerFrom before (c :: rest) = small ++ lowerFrom (c :: before) rest := by
  rw [lowerFrom]
  refine ⟨_, ?_, ?_, rfl⟩
  all_goals split
  · split <;> simp
  · exact (lowerChar_spec c).1
  · intro d hd
    have small : IsSmall d ∧ isBlank d = false := by
      split at hd <;> rw [List.mem_singleton.mp hd] <;> exact isSmall_of_isApart (by decide +kernel)
    exact ⟨small.1, fun _ => small.2⟩
  · exact (lowerChar_spec c).2

theorem isSmall_lowerFrom (before cs : List Char) : ∀ d ∈ lowerFrom before cs, IsSmall d := by
  induction cs generalizing before with
  | nil => simp [lowerFrom]
  | cons c rest ih =>
      obtain ⟨small, -, hsmall, eq⟩ := lowerFrom_cons before c rest
      rw [eq]
      exact List.forall_mem_append.mpr ⟨fun d hd => (hsmall d hd).1, ih (c :: before)⟩

theorem lowerFrom_of_small {cs : List Char} (small : ∀ c ∈ cs, IsSmall c) (before : List Char) :
    lowerFrom before cs = cs := by
  induction cs generalizing before with
  | nil => rfl
  | cons c rest ih =>
      obtain ⟨first, others⟩ := List.forall_mem_cons.mp small
      rw [lowerFrom, if_neg first.ne_sigma, first.lowerChar_eq, ih others]
      rfl

/-- A text that neither starts nor ends with white space. -/
structure IsTrimmed (cs : List Char) : Prop where
  first : ∀ c ∈ cs.head?, isBlank c = false
  last : ∀ c ∈ cs.getLast?, isBlank c = false

theorem isTrimmed_trimChars (cs : List Char) : IsTrimmed (trimChars cs) := by
  constructor
  · intro c hc
    obtain ⟨rest, hrest⟩ := List.rdropWhile_prefix isBlank (cs.dropWhile isBlank)
    have hc : (cs.dropWhile isBlank).head? = some c := by
      rw [← hrest, List.head?_append]
      exact congrArg (·.or rest.head?) hc
    have := List.head?_dropWhile_not isBlank cs
    rwa [hc] at this
  · intro c hc
    obtain ⟨hne, rfl⟩ := List.mem_getLast?_eq_getLast hc
    exact Bool.eq_false_iff.mpr (List.rdropWhile_last_not isBlank _ hne)

theorem IsTrimmed.trimChars_eq {cs : List Char} (trimmed : IsTrimmed cs) : trimChars cs = cs := by
  have front : cs.dropWhile isBlank = cs := by
    cases cs with
    | nil => rfl
    | cons c rest => exact List.dropWhile_cons_of_neg (by simp [trimmed.first c rfl])
  rw [trimChars, front]
  refine List.rdropWhile_eq_self_iff.mpr fun hne => ?_
  simp [trimmed.last _ (List.getLast_mem_getLast? hne)]

theorem lowerFrom_ne_nil (before : List Char) {cs : List Char} (hne : cs ≠ []) :
    lowerFrom before cs ≠ [] := by
  obtain ⟨c, rest, rfl⟩ := List.exists_cons_of_ne_nil hne
  obtain ⟨small, nonempty, -, eq⟩ := lowerFrom_cons before c rest
  rw [eq]
  exact List.append_ne_nil_of_left_ne_nil nonempty _

theorem last_lowerFrom {cs : List Char} (last : ∀ c ∈ cs.getLast?, isBlank c = false)
    (before : List Char) : ∀ d ∈ (lowerFrom before cs).getLast?, isBlank d = false := by
  induction cs generalizing before with
  | nil => simp [lowerFrom]
  | cons c rest ih =>
      obtain ⟨small, -, hsmall, eq⟩ := lowerFrom_cons before c rest
      intro d hd
      rw [eq] at hd
      cases rest with
      | nil =>
          rw [lowerFrom, List.append_nil] at hd
          exact (hsmall d (List.mem_of_getLast? hd)).2 (last c rfl)
      | cons next more =>
          rw [List.getLast?_append_of_ne_nil _ (lowerFrom_ne_nil _ (by simp))] at hd
          exact ih (by simpa using last) _ d hd

/-- Lower-casing keeps a text trimmed. -/
theorem IsTrimmed.lowerFrom {cs : List Char} (trimmed : IsTrimmed cs) (before : List Char) :
    IsTrimmed (lowerFrom before cs) := by
  refine ⟨fun d hd => ?_, last_lowerFrom trimmed.last before⟩
  cases cs with
  | nil => cases hd
  | cons c rest =>
      obtain ⟨small, nonempty, hsmall, eq⟩ := lowerFrom_cons before c rest
      rw [eq, List.head?_append_of_ne_nil _ nonempty] at hd
      exact (hsmall d (List.mem_of_head? hd)).2 (trimmed.first c rfl)

theorem IsTrimmed.map {cs : List Char} (trimmed : IsTrimmed cs) {f : Char → Char}
    (plain : ∀ c, isBlank c = false → isBlank (f c) = false) : IsTrimmed (cs.map f) := by
  constructor
  · simpa using fun c hc => plain c (trimmed.first c hc)
  · simpa using fun c hc => plain c (trimmed.last c hc)

end Conveyor.Text
