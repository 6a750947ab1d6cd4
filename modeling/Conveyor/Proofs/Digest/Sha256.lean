import Conveyor.Digest.Sha256
import Mathlib.Data.List.GetD

/-!
Hashing in pieces. A hasher that has been fed some pieces holds the words of their full blocks and the
bytes after these, so where the pieces are cut does not matter; and the hash of all bytes is the one of
the standard, with the schedule of each block given by its recurrence.
-/

namespace Conveyor.Sha256

theorem absorb_of_lt (w : Words) {bytes : Bytes} (h : bytes.length < blockSize) :
    absorb w bytes = (w, bytes) := by
  rw [absorb, if_neg (Nat.not_le_of_lt h)]

theorem absorb_of_le (w : Words) {bytes : Bytes} (h : blockSize ≤ bytes.length) :
    absorb w bytes = absorb (compress w (bytes.take blockSize)) (bytes.drop blockSize) := by
  rw [absorb, if_pos h]

/-- Full blocks at the start may be folded before the rest is there. -/
theorem absorb_append (w : Words) (front back : Bytes) :
    absorb w (front ++ back) = absorb (absorb w front).1 ((absorb w front).2 ++ back) := by
  induction w, front using absorb.induct with
  | case1 w front full ih =>
      have longer : blockSize ≤ (front ++ back).length := by
        rw [List.length_append]
        omega
      rw [absorb_of_le w full, absorb_of_le w longer, List.take_append_of_le_length full,
        List.drop_append_of_le_length full, ih]
  | case2 w front short => rw [absorb_of_lt w (Nat.lt_of_not_le short)]

/-- What a hasher is after an input. -/
structure Hasher.Holds (s : Hasher) (input : Bytes) : Prop where
  folded : absorb .start input = (s.words, s.pending)
  counted : s.count = input.length

namespace Hasher

variable {s : Hasher} {input : Bytes}

theorem holds_start : Holds {} [] := ⟨absorb_of_lt _ (by decide), rfl⟩

theorem Holds.feed (h : s.Holds input) (piece : Bytes) : (s.feed piece).Holds (input ++ piece) := by
  constructor
  · rw [absorb_append, h.folded]
    rfl
  · rw [List.length_append, ← h.counted]
    rfl

theorem Holds.foldl_feed (h : s.Holds input) (pieces : List Bytes) :
    (pieces.foldl Hasher.feed s).Holds (input ++ pieces.flatten) := by
  induction pieces generalizing s input with
  | nil => simpa using h
  | cons piece rest ih =>
      rw [List.flatten_cons, ← List.append_assoc]
      exact ih (h.feed piece)

theorem Holds.finish (h : s.Holds input) : s.finish = digest input := by
  rw [Hasher.finish, digest, absorb_append _ input, h.folded, h.counted]

end Hasher

/-- The words of a block's schedule: those of the block, and then each from four before it. -/
def schedule (block : Bytes) (t : Nat) : UInt32 :=
  if t < 16 then
    ((block.getD (4 * t) 0).toUInt32 <<< 24) ||| ((block.getD (4 * t + 1) 0).toUInt32 <<< 16) |||
      ((block.getD (4 * t + 2) 0).toUInt32 <<< 8) ||| (block.getD (4 * t + 3) 0).toUInt32
  else
    let x := schedule block (t - 15)
    let y := schedule block (t - 2)
    (rotate y 17 ^^^ rotate y 19 ^^^ (y >>> 10)) + schedule block (t - 7) +
      (rotate x 7 ^^^ rotate x 18 ^^^ (x >>> 3)) + schedule block (t - 16)

/-- The words that a block of the standard turns into, one round for each word of its schedule. -/
def standardStep (w : Words) (block : Bytes) : Words :=
  w.add (roundConstants.zipIdx.foldl (fun v k => round v k.1 (schedule block k.2)) w)

/-- The hash of the standard: the blocks of the padded input, one after the other. -/
def standardDigest (bytes : Bytes) : Bytes :=
  let message := bytes ++ padding bytes.length
  let blocks := (List.range (message.length / 64)).map fun i => (message.drop (64 * i)).take 64
  (blocks.foldl standardStep .start).toList.flatMap bytesOfWord

theorem schedule_of_lt {block : Bytes} {t : Nat} (early : t < 16) (within : 4 * t + 3 < block.length) :
    schedule block t = (block[4 * t].toUInt32 <<< 24) ||| (block[4 * t + 1].toUInt32 <<< 16) |||
      (block[4 * t + 2].toUInt32 <<< 8) ||| block[4 * t + 3].toUInt32 := by
  rw [schedule, if_pos early, List.getD_eq_getElem, List.getD_eq_getElem, List.getD_eq_getElem,
    List.getD_eq_getElem]

theorem wordsOfBytes_drop (block : Bytes) (n t : Nat) (long : block.length = 4 * (t + n))
    (early : t + n ≤ 16) : wordsOfBytes (block.drop (4 * t)) = (List.range' t n).map (schedule block) := by
  induction n generalizing t with
  | zero =>
      rw [List.drop_of_length_le (by omega)]
      rfl
  | succ n ih =>
      have later := ih (t + 1) (by omega) (by omega)
      rw [List.drop_eq_getElem_cons (by omega), List.drop_eq_getElem_cons (by omega),
        List.drop_eq_getElem_cons (by omega), List.drop_eq_getElem_cons (by omega), wordsOfBytes,
        List.range'_succ, List.map_cons, schedule_of_lt (by omega) (by omega), ← later]
      rfl

/-- The next word of a window is the next one of the schedule. -/
theorem nextWord_schedule (block : Bytes) (t : Nat) :
    nextWord ((List.range' t 16).map (schedule block)) = schedule block (t + 16) := by
  have word : ∀ i < 16, ((List.range' t 16).map (schedule block)).getD i 0 = schedule block (t + i) := by
    intro i hi
    rw [List.getD_eq_getElem _ _ (by simpa using hi), List.getElem_map, List.getElem_range', Nat.one_mul]
  obtain ⟨two, seven, fifteen, sixteen⟩ :
      t + 16 - 2 = t + 14 ∧ t + 16 - 7 = t + 9 ∧ t + 16 - 15 = t + 1 ∧ t + 16 - 16 = t + 0 := by
    omega
  rw [schedule, if_neg (by omega), two, seven, fifteen, sixteen, nextWord]
  simp only [word 0 (by decide), word 1 (by decide), word 9 (by decide), word 14 (by decide)]
  ac_rfl

/-- The window holds the next sixteen words of the schedule. -/
theorem rounds_eq (w : Words) (block : Bytes) (t : Nat) (constants : List UInt32) :
    rounds w ((List.range' t 16).map (schedule block)) constants =
      (constants.zipIdx t).foldl (fun v k => round v k.1 (schedule block k.2)) w := by
  induction constants generalizing w t with
  | nil => rfl
  | cons k rest ih =>
      have next : ((List.range' t 16).map (schedule block)).tail ++
          [nextWord ((List.range' t 16).map (schedule block))] =
            (List.range' (t + 1) 16).map (schedule block) := by
        have longer : List.range' (t + 1) 16 = List.range' (t + 1) 15 ++ [t + 16] := by
          rw [List.range'_concat, Nat.one_mul, Nat.add_right_comm]
        rw [nextWord_schedule, longer, List.range'_succ, List.map_cons, List.tail_cons, List.map_append,
          List.map_singleton]
      rw [rounds, next, ih]
      rfl

theorem compress_eq (w : Words) {block : Bytes} (full : block.length = blockSize) :
    compress w block = standardStep w block := by
  have words : wordsOfBytes block = (List.range' 0 16).map (schedule block) :=
    wordsOfBytes_drop block 16 0 full (by decide)
  rw [compress, words, rounds_eq, standardStep]

theorem length_padding (count : Nat) :
    (padding count).length = 9 + (2 * blockSize - 9 - count % blockSize) % blockSize := by
  simp [padding, bytesOfWord]
  omega

/-- Padding completes a block. -/
theorem blockSize_dvd_padded (bytes : Bytes) : blockSize ∣ (bytes ++ padding bytes.length).length := by
  rw [List.length_append, length_padding, blockSize]
  omega

/-- Full blocks are folded one after the other. -/
theorem absorb_blocks (n : Nat) (w : Words) (bytes : Bytes) (whole : bytes.length = blockSize * n) :
    (absorb w bytes).1 =
      ((List.range n).map fun i => (bytes.drop (64 * i)).take 64).foldl standardStep w := by
  induction n generalizing w bytes with
  | zero => rw [absorb_of_lt w (by rw [whole]; decide)]; rfl
  | succ n ih =>
      have full : (bytes.take blockSize).length = blockSize := by
        rw [List.length_take, whole, blockSize]
        omega
      have later := ih (standardStep w (bytes.take blockSize)) (bytes.drop blockSize) (by
        rw [List.length_drop, whole, blockSize]
        omega)
      rw [absorb_of_le w (by rw [whole, blockSize]; omega), compress_eq w full, later,
        List.range_succ_eq_map, List.map_cons, List.foldl_cons, List.map_map]
      simp [Function.comp_def, blockSize, Nat.mul_add, Nat.add_comm]

theorem digest_eq_standard (bytes : Bytes) : digest bytes = standardDigest bytes := by
  obtain ⟨n, whole⟩ := blockSize_dvd_padded bytes
  have count : (bytes ++ padding bytes.length).length / 64 = n := by
    rw [whole, blockSize]
    omega
  rw [digest, standardDigest]
  simp only [count, absorb_blocks n .start _ whole]

example : digest [0x61, 0x62, 0x63] = [
    0xba, 0x78, 0x16, 0xbf, 0x8f, 0x01, 0xcf, 0xea, 0x41, 0x41, 0x40, 0xde, 0x5d, 0xae, 0x22, 0x23,
    0xb0, 0x03, 0x61, 0xa3, 0x96, 0x17, 0x7a, 0x9c, 0xb4, 0x10, 0xff, 0x61, 0xf2, 0x00, 0x15, 0xad] := by
  decide +kernel

end Conveyor.Sha256
