import Conveyor.Shell.Quote
import Conveyor.Shell.Scanner
import Mathlib.Data.Bool.AllAny

/-!
Quoting of words. A text is written as a word by stretches of safe characters, of single quotes and of
double quotes, and a quoted word is such a way to write its text. Whatever is written so is read as one
word up to the character that ends it, and the word spells the text and holds nothing to expand.
-/

namespace Conveyor.Shell

/-- The characters that mean something between double quotes. -/
def activeInDouble : List Char := "$\x60\x22\\".toList

/-- Ways to write a text as a word or a part of one. -/
inductive Quotes : List Char → List Char → Prop
  | nil : Quotes [] []
  | bare {c : Char} {cs text : List Char} (safe : isSafeChar c = true) (more : Quotes cs text) :
      Quotes (c :: cs) (c :: text)
  | single {inner cs text : List Char} (closed : '\x27' ∉ inner) (more : Quotes cs text) :
      Quotes ('\x27' :: (inner ++ '\x27' :: cs)) (inner ++ text)
  | double {inner cs text : List Char} (passive : ∀ c ∈ inner, c ∉ activeInDouble)
      (more : Quotes cs text) : Quotes ('\x22' :: (inner ++ '\x22' :: cs)) (inner ++ text)

namespace Quotes

variable {cs cs' text text' : List Char}

theorem append (h : Quotes cs text) (h' : Quotes cs' text') : Quotes (cs ++ cs') (text ++ text') := by
  induction h with
  | nil => exact h'
  | bare safe _ ih => exact ih.bare safe
  | single closed _ ih => simpa using ih.single closed
  | double passive _ ih => simpa using ih.double passive

theorem safe (h : cs.all isSafeChar = true) : Quotes cs cs := by
  induction cs with
  | nil => exact .nil
  | cons c rest ih =>
      rw [List.all_cons, Bool.and_eq_true] at h
      exact .bare h.1 (ih h.2)

/-- A single quote closes the stretch before it, stands between double quotes and opens a new one. -/
theorem quotedWordChars {stretch : List Char} (closed : '\x27' ∉ stretch) (cs : List Char) :
    Quotes ('\x27' :: (stretch ++ (cs.flatMap quotedWordChar ++ ['\x27']))) (stretch ++ cs) := by
  induction cs generalizing stretch with
  | nil => exact .single closed .nil
  | cons c rest ih =>
      by_cases quote : c = '\x27'
      · subst quote
        have passive : ∀ c ∈ ['\x27'], c ∉ activeInDouble := List.forall_mem_singleton.mpr (by decide)
        exact .single closed (.double passive (ih List.not_mem_nil))
      · have longer : '\x27' ∉ stretch ++ [c] := by simp [closed, Ne.symm quote]
        simpa [quotedWordChar, quote] using ih longer

theorem quoteWordChars (cs : List Char) : Quotes (quoteWordChars cs) cs := by
  unfold Shell.quoteWordChars
  split
  · rename_i empty
    rw [List.isEmpty_iff.mp empty]
    exact .single List.not_mem_nil .nil
  · split
    · exact safe ‹_›
    · exact quotedWordChars List.not_mem_nil cs

end Quotes

theorem quoteWordChars_ne_nil (cs : List Char) : quoteWordChars cs ≠ [] := by
  unfold quoteWordChars
  split
  · simp
  · split
    · simpa using ‹¬cs.isEmpty = true›
    · simp

/-- Words of texts alone that spell a text, where what is not quoted is safe. -/
inductive Spells : Word → List Char → Prop
  | nil : Spells [] []
  | quoted {s : String} {w : Word} {text : List Char} (more : Spells w text) :
      Spells (.text s true :: w) (s.toList ++ text)
  | bare {s : String} {w : Word} {text : List Char} (filled : s ≠ "")
      (safe : ∀ c ∈ s.toList, isSafeChar c = true) (more : Spells w text) :
      Spells (.text s false :: w) (s.toList ++ text)

theorem spells_joinText_quoted {w : Word} {text : List Char} (h : Spells w text) (c : Char) :
    Spells (joinText c true w) (c :: text) := by
  cases h with
  | nil => simpa [joinText] using Spells.quoted (s := String.singleton c) .nil
  | @quoted s w text more =>
      simpa [joinText] using Spells.quoted (s := String.singleton c ++ s) more
  | @bare s w text filled safe more =>
      simpa [joinText] using Spells.quoted (s := String.singleton c) (.bare filled safe more)

theorem joinText_ne_nil (c : Char) (q : Bool) (w : Word) : joinText c q w ≠ [] := by
  unfold joinText
  split
  · split <;> simp
  · simp

theorem spells_joinText_bare {w : Word} {text : List Char} (h : Spells w text) {c : Char}
    (safe : isSafeChar c = true) : Spells (joinText c false w) (c :: text) := by
  have one : ∀ d ∈ (String.singleton c).toList, isSafeChar d = true := by simpa using safe
  cases h with
  | nil => simpa [joinText] using Spells.bare (s := String.singleton c) (by simp) one .nil
  | @quoted s w text more =>
      simpa [joinText] using Spells.bare (s := String.singleton c) (by simp) one (.quoted more)
  | @bare s w text filled rest more =>
      have both : ∀ d ∈ (String.singleton c ++ s).toList, isSafeChar d = true := by
        simpa using ⟨safe, rest⟩
      simpa [joinText] using Spells.bare (s := String.singleton c ++ s) (by simp) both more

/-- From wherever these characters are ahead, reading succeeds and leaves those. -/
def Reads {α : Type} (p : Scan α) (ahead left : List Char) (P : α → Prop) : Prop :=
  ∀ s : Scanner, s.rest = ahead → ∃ a s', p.run s = .ok (a, s') ∧ s'.rest = left ∧ P a

namespace Reads

variable {α β : Type} {p : Scan α} {f : α → Scan β} {ahead left left' : List Char} {P P' : α → Prop}
  {Q : β → Prop}

theorem pure {a : α} (h : P a) : Reads (Pure.pure a) ahead ahead P := fun s hs => ⟨a, s, rfl, hs, h⟩

theorem bind (first : Reads p ahead left P) (next : ∀ a, P a → Reads (f a) left left' Q) :
    Reads (p >>= f) ahead left' Q := by
  intro s hs
  obtain ⟨a, s', run, hs', ha⟩ := first s hs
  obtain ⟨b, s'', run', hs'', hb⟩ := next a ha s' hs'
  refine ⟨b, s'', ?_, hs'', hb⟩
  rw [StateT.run_bind, run]
  exact run'

theorem mono (h : Reads p ahead left P) (le : ∀ a, P a → P' a) : Reads p ahead left P' := by
  intro s hs
  obtain ⟨a, s', run, hs', ha⟩ := h s hs
  exact ⟨a, s', run, hs', le a ha⟩

end Reads

theorem reads_rest (ahead : List Char) : Reads Scan.rest ahead ahead (ahead = ·) :=
  fun s hs => ⟨s.rest, s, rfl, hs, hs.symm⟩

theorem reads_drop {n : Nat} {ahead left : List Char} (h : ahead.drop n = left) :
    Reads (Scan.drop n) ahead left fun _ => True := by
  intro s hs
  refine ⟨(), _, rfl, ?_, trivial⟩
  dsimp only
  split <;> simp [hs, h]

/-- Nothing is ahead, or a character that ends words. -/
def WordEnds (tail : List Char) : Prop := ∀ c ∈ tail.head?, endsWord c = true

/-- The characters that mean something outside quotes, but for the quotes. -/
def activeOutside : List Char := " \t\n;&|<>()\\\x60$~#*?[".toList

theorem not_safe_of_active {c : Char} (h : c ∈ activeOutside) : isSafeChar c = false :=
  List.all_iff_forall_prop.mp (by decide : activeOutside.all fun c => isSafeChar c = false) c h

theorem ne_of_safe {c d : Char} (safe : isSafeChar c = true) (active : isSafeChar d = false) : c ≠ d := by
  rintro rfl
  exact Bool.noConfusion (safe.symm.trans active)

theorem endsWord_of_safe {c : Char} (safe : isSafeChar c = true) : endsWord c = false := by
  apply Bool.eq_false_iff.mpr
  intro ends
  have active : c ∈ " \t\n;&|<>()".toList := by simpa [endsWord] using ends
  exact ne_of_safe safe (not_safe_of_active (List.mem_append_left _ active)) rfl

theorem reads_parts_end {tail : List Char} (ends : WordEnds tail) (fuel : Nat) :
    Reads (readParts (fuel + 1) .plain) tail tail (· = []) := by
  rw [readParts]
  refine (reads_rest _).bind ?_
  rintro _ rfl
  cases tail with
  | nil => exact .pure rfl
  | cons c rest =>
      have stops : Setting.plain.endsAt c = true := ends c rfl
      simp only [stops, if_true]
      exact .pure rfl

theorem reads_parts_safe {c : Char} (safe : isSafeChar c = true) {rest tail text : List Char} {fuel : Nat}
    (more : Reads (readParts fuel .plain) rest tail (Spells · text)) :
    Reads (readParts (fuel + 1) .plain) (c :: rest) tail fun w => Spells w (c :: text) ∧ w ≠ [] := by
  rw [readParts]
  refine (reads_rest _).bind ?_
  rintro _ rfl
  have goesOn : Setting.plain.endsAt c = false := endsWord_of_safe safe
  have other : ∀ d, isSafeChar d = false → c ≠ d := fun d => ne_of_safe safe
  simp only [goesOn, Bool.false_eq_true, if_false, other '\\' (by decide), other '\x27' (by decide),
    other '\x22' (by decide), other '\x60' (by decide), other '$' (by decide), decide_false, Bool.false_and]
  refine (reads_drop rfl).bind fun _ _ => more.bind fun w spells => .pure ?_
  exact ⟨spells_joinText_bare spells safe, joinText_ne_nil c false w⟩

theorem reads_parts_single {inner rest tail text : List Char} (closed : '\x27' ∉ inner) {fuel : Nat}
    (more : Reads (readParts fuel .plain) rest tail (Spells · text)) :
    Reads (readParts (fuel + 1) .plain) ('\x27' :: (inner ++ '\x27' :: rest)) tail
      fun w => Spells w (inner ++ text) ∧ w ≠ [] := by
  rw [readParts]
  refine (reads_rest _).bind ?_
  rintro _ rfl
  have goesOn : Setting.plain.endsAt '\x27' = false := by decide
  have stretch : (inner ++ '\x27' :: rest).takeWhile (fun c => decide (c ≠ '\x27')) = inner := by
    have before : ∀ c ∈ inner, decide (c ≠ '\x27') = true := fun c hc =>
      decide_eq_true (ne_of_mem_of_not_mem hc closed)
    rw [List.takeWhile_append_of_pos before, List.takeWhile_cons_of_neg (by simp), List.append_nil]
  have ended : inner.length ≠ (inner ++ '\x27' :: rest).length := by simp
  simp only [goesOn, Bool.false_eq_true, if_false, stretch, ended]
  have left : ('\x27' :: (inner ++ '\x27' :: rest)).drop (inner.length + 2) = rest := by simp
  refine (reads_drop left).bind fun _ _ => more.bind fun w spells => .pure ⟨?_, by simp⟩
  simpa using Spells.quoted (s := String.ofList inner) spells

theorem reads_parts_inDouble {inner : List Char} (passive : ∀ c ∈ inner, c ∉ activeInDouble)
    {rest : List Char} {fuel : Nat} (enough : inner.length < fuel) :
    Reads (readParts fuel .double) (inner ++ '\x22' :: rest) ('\x22' :: rest) (Spells · inner) := by
  induction inner generalizing fuel with
  | nil =>
      obtain ⟨fuel, rfl⟩ := Nat.exists_eq_add_one.mpr enough
      rw [readParts]
      refine (reads_rest _).bind ?_
      rintro _ rfl
      exact .pure .nil
  | cons c more ih =>
      obtain ⟨fuel, rfl⟩ := Nat.exists_eq_add_one.mpr (Nat.zero_lt_of_lt enough)
      rw [List.forall_mem_cons] at passive
      have other : ∀ d ∈ activeInDouble, c ≠ d := fun d hd same => passive.1 (same ▸ hd)
      have goesOn : Setting.double.endsAt c = false := decide_eq_false (other '\x22' (by decide))
      rw [readParts]
      refine (reads_rest _).bind ?_
      rintro _ rfl
      simp only [List.cons_append, goesOn, Bool.false_eq_true, if_false, other '\\' (by decide),
        Setting.isQuoted, Bool.not_true, Bool.and_false, other '\x22' (by decide), other '\x60' (by decide),
        other '$' (by decide), decide_false, Bool.false_and]
      refine (reads_drop rfl).bind fun _ _ => ?_
      refine (ih passive.2 (Nat.lt_of_succ_lt_succ enough)).bind fun w spells => .pure ?_
      exact spells_joinText_quoted spells c

theorem Spells.append {w w' : Word} {text text' : List Char} (h : Spells w text) (h' : Spells w' text') :
    Spells (w ++ w') (text ++ text') := by
  induction h with
  | nil => exact h'
  | quoted _ ih => simpa using ih.quoted
  | bare filled safe _ ih => simpa using ih.bare filled safe

theorem reads_parts_double {inner rest tail text : List Char} (passive : ∀ c ∈ inner, c ∉ activeInDouble)
    {fuel : Nat} (enough : inner.length < fuel)
    (more : Reads (readParts fuel .plain) rest tail (Spells · text)) :
    Reads (readParts (fuel + 1) .plain) ('\x22' :: (inner ++ '\x22' :: rest)) tail
      fun w => Spells w (inner ++ text) ∧ w ≠ [] := by
  rw [readParts]
  refine (reads_rest _).bind ?_
  rintro _ rfl
  refine (reads_drop rfl).bind fun _ _ => (reads_parts_inDouble passive enough).bind fun w spells => ?_
  refine (reads_drop rfl).bind fun _ _ => more.bind fun w' spells' => .pure ⟨?_, by simp⟩
  exact (spells.append spells').quoted (s := "")

/-- A written text is read as one word that spells it, up to the character that ends the word. -/
theorem reads_parts {cs text tail : List Char} (h : Quotes cs text) (ends : WordEnds tail) {fuel : Nat}
    (enough : cs.length < fuel) :
    Reads (readParts fuel .plain) (cs ++ tail) tail fun w => Spells w text ∧ (cs ≠ [] → w ≠ []) := by
  -- stretch by stretch of what is written; the fuel stays above the length of what is left of it
  induction h generalizing fuel with
  | nil =>
      obtain ⟨fuel, rfl⟩ := Nat.exists_eq_add_one.mpr enough
      refine (reads_parts_end ends fuel).mono ?_
      rintro _ rfl
      exact ⟨.nil, absurd rfl⟩
  | bare safe _ ih =>
      obtain ⟨fuel, rfl⟩ := Nat.exists_eq_add_one.mpr (Nat.zero_lt_of_lt enough)
      have more := (ih (Nat.lt_of_succ_lt_succ enough)).mono fun w h => h.1
      exact (reads_parts_safe safe more).mono fun w h => ⟨h.1, fun _ => h.2⟩
  | @single inner cs text closed _ ih =>
      obtain ⟨fuel, rfl⟩ := Nat.exists_eq_add_one.mpr (Nat.zero_lt_of_lt enough)
      have shorter : cs.length < fuel := by simp at enough; omega
      have more := (ih shorter).mono fun w h => h.1
      rw [List.cons_append, List.append_assoc, List.cons_append]
      exact (reads_parts_single closed more).mono fun w h => ⟨h.1, fun _ => h.2⟩
  | @double inner cs text passive _ ih =>
      obtain ⟨fuel, rfl⟩ := Nat.exists_eq_add_one.mpr (Nat.zero_lt_of_lt enough)
      have shorter : cs.length < fuel := by simp at enough; omega
      have more := (ih shorter).mono fun w h => h.1
      have inside : inner.length < fuel := by simp at enough; omega
      rw [List.cons_append, List.append_assoc, List.cons_append]
      exact (reads_parts_double passive inside more).mono fun w h => ⟨h.1, fun _ => h.2⟩

end Conveyor.Shell
