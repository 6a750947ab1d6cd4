import Conveyor.Text.Base64
import Mathlib.Data.List.GetD
import Mathlib.Data.List.Nodup

/-!
Texts, their bytes and the spelling of bytes in base 64 determine each other. Neither padding nor a
length is needed: the number of digits tells how many bytes the last group has.
-/

namespace Conveyor.Text

private theorem toList_loop (bytes : ByteArray) (i : Nat) (done : List UInt8) :
    ByteArray.toList.loop bytes i done = done.reverse ++ bytes.data.toList.drop i := by
  rw [ByteArray.toList.loop]
  split
  · rename_i h
    have hi : i < bytes.data.toList.length := by simpa using h
    have hget : bytes.get! i = bytes.data.toList[i] := by
      change bytes.data[i]! = _
      rw [getElem!_pos bytes.data i (by simpa using hi), Array.getElem_toList]
    rw [toList_loop bytes (i + 1), hget, List.drop_eq_getElem_cons hi, List.reverse_cons,
      List.append_assoc]
    rfl
  · rename_i h
    rw [List.drop_of_length_le (by simpa using h), List.append_nil]
termination_by bytes.size - i

theorem encode_eq (s : String) : encode s = s.toByteArray.data.toList := by
  rw [encode, String.toUTF8_eq_toByteArray, ByteArray.toList, toList_loop]
  rfl

theorem encode_injective : Function.Injective encode := by
  intro s t h
  rw [encode_eq, encode_eq] at h
  exact String.toByteArray_inj.mp (ByteArray.ext (Array.toList_inj.mp h))

theorem length_base64Alphabet : base64Alphabet.length = 64 := by decide +kernel

theorem base64Digit_eq {n : Nat} (hn : n < 64) :
    base64Digit n = base64Alphabet.get ⟨n, length_base64Alphabet ▸ hn⟩ :=
  List.getD_eq_getElem _ _ _

theorem base64Digit_injective {m n : Nat} (hm : m < 64) (hn : n < 64)
    (h : base64Digit m = base64Digit n) : m = n := by
  have nodup : base64Alphabet.Nodup := by decide +kernel
  rw [base64Digit_eq hm, base64Digit_eq hn] at h
  exact Fin.mk.inj (List.nodup_iff_injective_get.mp nodup h)

theorem sextets_lt (bytes : Bytes) : ∀ n ∈ sextets bytes, n < 64 := by
  induction bytes using sextets.induct with
  | case1 a b c rest ih =>
      have ha := a.toNat_lt
      have hb := b.toNat_lt
      have hc := c.toNat_lt
      simp only [sextets, List.forall_mem_cons]
      exact ⟨by omega, by omega, by omega, by omega, ih⟩
  | case2 a b =>
      have ha := a.toNat_lt
      have hb := b.toNat_lt
      simp only [sextets, List.forall_mem_cons]
      exact ⟨by omega, by omega, by omega, by simp⟩
  | case3 a =>
      have ha := a.toNat_lt
      simp only [sextets, List.forall_mem_cons]
      exact ⟨by omega, by omega, by simp⟩
  | case4 => simp [sextets]

/-- The induction follows the groups of three bytes; groups of different sizes have different
numbers of digits. -/
theorem sextets_injective {xs ys : Bytes} (h : sextets xs = sextets ys) : xs = ys := by
  induction xs using sextets.induct generalizing ys with
  | case1 a b c rest ih =>
      match ys, h with
      | x :: y :: z :: tail, h =>
          simp only [sextets, List.cons.injEq] at h
          obtain ⟨h1, h2, h3, h4, hrest⟩ := h
          have boundB := b.toNat_lt
          have boundY := y.toNat_lt
          have boundC := c.toNat_lt
          have boundZ := z.toNat_lt
          have ha : a = x := UInt8.toNat_inj.mp (by omega)
          have hb : b = y := UInt8.toNat_inj.mp (by omega)
          have hc : c = z := UInt8.toNat_inj.mp (by omega)
          rw [ha, hb, hc, ih hrest]
      | [_, _], h | [_], h | [], h => simp [sextets] at h
  | case2 a b =>
      match ys, h with
      | [x, y], h =>
          simp only [sextets, List.cons.injEq] at h
          obtain ⟨h1, h2, h3, -⟩ := h
          have boundB := b.toNat_lt
          have boundY := y.toNat_lt
          have ha : a = x := UInt8.toNat_inj.mp (by omega)
          have hb : b = y := UInt8.toNat_inj.mp (by omega)
          rw [ha, hb]
      | _ :: _ :: _ :: _, h | [_], h | [], h => simp [sextets] at h
  | case3 a =>
      match ys, h with
      | [x], h =>
          simp only [sextets, List.cons.injEq] at h
          have ha : a = x := UInt8.toNat_inj.mp (by omega)
          rw [ha]
      | _ :: _ :: _ :: _, h | [_, _], h | [], h => simp [sextets] at h
  | case4 =>
      match ys, h with
      | [], _ => rfl
      | _ :: _ :: _ :: _, h | [_, _], h | [_], h => simp [sextets] at h

theorem base64_injective {xs ys : Bytes} (h : base64 xs = base64 ys) : xs = ys := by
  apply sextets_injective
  have hx := sextets_lt xs
  have hy := sextets_lt ys
  simp only [base64] at h
  generalize sextets xs = ms at h hx ⊢
  generalize sextets ys = ns at h hy ⊢
  induction ms generalizing ns with
  | nil => simpa using h
  | cons m ms ih =>
      cases ns with
      | nil => simp at h
      | cons n ns =>
          simp only [List.map_cons, List.cons.injEq] at h
          simp only [List.forall_mem_cons] at hx hy
          rw [base64Digit_injective hx.1 hy.1 h.1, ih hx.2 ns h.2 hy.2]

/-- Every digit is a letter, a digit, a dash or an underscore. -/
theorem base64_chars (bytes : Bytes) : ∀ c ∈ base64 bytes, c.isAlphanum ∨ c = '-' ∨ c = '_' := by
  have all : base64Alphabet.all (fun c => c.isAlphanum || c = '-' || c = '_') = true := by
    decide +kernel
  have alphabet : ∀ c ∈ base64Alphabet, c.isAlphanum ∨ c = '-' ∨ c = '_' := by
    simpa [or_assoc] using List.all_eq_true.mp all
  intro c hc
  obtain ⟨n, hn, rfl⟩ := List.mem_map.mp hc
  apply alphabet
  rw [base64Digit_eq (sextets_lt bytes n hn)]
  exact List.get_mem _ _

end Conveyor.Text
