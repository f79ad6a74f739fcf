import OmniRobot.Crsf.Parser

/-!
# The parser's memory operations

What the checked reads and copies of `Parser.lean` do to the first bytes of the frame buffer, the
only ones the parser ever looks at. Each lemma needs its indices in range and says that the
operation then succeeds.
-/

namespace Crsf

/-- Byte `i` of a list, as C reads it when it is there. -/
def byteAt (l : List UInt8) (i : ℕ) : UInt8 := l.getD i 0

theorem byteAt_eq_getElem {l : List UInt8} {i : ℕ} (h : i < l.length) : byteAt l i = l[i] := by
  simp [byteAt, h]

theorem byteAt_append_left {l : List UInt8} (m : List UInt8) {i : ℕ} (h : i < l.length) :
    byteAt (l ++ m) i = byteAt l i := by
  simp [byteAt, List.getElem?_append_left h]

theorem byteAt_take (l : List UInt8) {i n : ℕ} (h : i < n) : byteAt (l.take n) i = byteAt l i := by
  simp [byteAt, h]

/-- The first `n` bytes of the frame buffer. -/
def front (mem : FrameBytes) (n : ℕ) : List UInt8 := mem.toList.take n

theorem length_mem (mem : FrameBytes) : mem.toList.length = 30 := by simp

theorem length_front {mem : FrameBytes} {n : ℕ} (hn : n ≤ 30) : (front mem n).length = n := by
  rw [front, List.length_take, length_mem]
  omega

theorem take_front {mem : FrameBytes} {m n : ℕ} (h : m ≤ n) :
    (front mem n).take m = front mem m := by
  rw [front, List.take_take, min_eq_left h, front]

/-! ### Checked operations in range -/

theorem readByte_eq {mem : FrameBytes} {n i : ℕ} (hi : i < n) (hn : n ≤ 30) :
    readByte mem i = .ok (byteAt (front mem n) i) := by
  have hi' : i < sizeofCrsfFrame := hi.trans_le hn
  have hget : byteAt (front mem n) i = mem[i] := by
    simp [byteAt, front, hi, Vector.getElem?_eq_getElem hi']
  rw [readByte, Vector.getElem?_eq_getElem hi', hget]

theorem writeByte_eq {mem : FrameBytes} {i : ℕ} {b : UInt8} (hi : i < 30) :
    writeByte mem i b = .ok (mem.set i b hi) := dif_pos hi

theorem usub_eq {a b : ℕ} (h : b ≤ a) : usub a b = .ok (a - b) := if_pos h

theorem memcpy_eq (mem : FrameBytes) {n : ℕ} {src : List UInt8} (h : n + src.length ≤ 30) :
    ∃ mem', memcpy mem n src = .ok mem' ∧ front mem' (n + src.length) = front mem n ++ src := by
  refine ⟨_, if_pos h, ?_⟩
  unfold front
  have hn : (mem.toList.take n).length = n := by rw [List.length_take, length_mem]; omega
  apply List.ext_getElem
  · rw [List.length_append, hn, List.length_take, length_mem]
    omega
  intro i h₁ h₂
  rw [List.length_append, hn] at h₂
  simp only [List.getElem_take, Vector.getElem_toList, Vector.getElem_ofFn]
  -- from `n` on the copied bytes, below it the old ones
  by_cases hi : n ≤ i
  · rw [if_pos hi, List.getElem_append_right (hn.le.trans hi), List.getD_eq_getElem?_getD,
      List.getElem?_eq_getElem (by omega), Option.getD_some]
    simp only [hn]
  · rw [if_neg hi, List.getElem_append_left (by omega)]
    simp

theorem memmove_eq (mem : FrameBytes) {offset n : ℕ} (h : offset + n ≤ 30) :
    ∃ mem', memmove mem offset n = .ok mem' ∧
      front mem' n = (front mem (offset + n)).drop offset := by
  refine ⟨_, if_pos h, ?_⟩
  unfold front
  apply List.ext_getElem
  · simp only [List.length_drop, List.length_take, length_mem]
    omega
  intro i h₁ h₂
  simp only [List.length_drop, List.length_take, length_mem] at h₂
  have hi : offset + i < mem.toList.length := by rw [length_mem]; omega
  simp only [List.getElem_take, Vector.getElem_toList, Vector.getElem_ofFn, List.getElem_drop,
    if_pos (show i < n by omega), List.getD_eq_getElem?_getD, Nat.add_comm i offset]
  rw [List.getElem?_eq_getElem hi, Option.getD_some, Vector.getElem_toList]

/-! ### Loops over the buffer -/

section Payload

variable {mem : FrameBytes} {n : ℕ} (hn : n ≤ 30)

include hn

/-- One more byte of the payload is read, and it is the next one of the buffer. -/
theorem readByte_payload {k : ℕ} (hk : 3 + (k + 1) ≤ n) :
    ∃ b, readByte mem (3 + k) = .ok b ∧
      ((front mem n).drop 3).take (k + 1) = ((front mem n).drop 3).take k ++ [b] := by
  have hlen : (front mem n).length = n := length_front hn
  have hread : readByte mem (3 + k) = .ok (byteAt (front mem n) (3 + k)) :=
    readByte_eq (by omega) hn
  refine ⟨_, hread, ?_⟩
  rw [List.take_succ_eq_append_getElem (by rw [List.length_drop, hlen]; omega),
    List.getElem_drop, byteAt_eq_getElem (by omega)]

/-- A loop that reads `payload[0]`, `payload[1]`, … folds over those bytes. -/
theorem foldlM_payload_eq {β : Type} (f : β → UInt8 → β) (b : β) (k : ℕ) (hk : 3 + k ≤ n) :
    (List.range k).foldlM (fun acc i => do return f acc (← readByte mem (3 + i))) b =
      (.ok (((front mem n).drop 3).take k |>.foldl f b) : Checked β) := by
  induction k with
  | zero => rfl
  | succ k ih =>
    obtain ⟨c, hread, htake⟩ := readByte_payload hn hk
    rw [List.range_succ, List.foldlM_append, ih (by omega), htake, List.foldl_append]
    simp [bind, Except.bind, pure, Except.pure, hread]

/-- Reading a whole payload. -/
theorem mapM_payload_eq (k : ℕ) (hk : 3 + k ≤ n) :
    ((List.range k).mapM fun i => readByte mem (3 + i)) = .ok (((front mem n).drop 3).take k) := by
  induction k with
  | zero => rfl
  | succ k ih =>
    obtain ⟨c, hread, htake⟩ := readByte_payload hn hk
    rw [List.range_succ, List.mapM_append, ih (by omega), htake]
    simp [bind, Except.bind, pure, Except.pure, hread]

end Payload

end Crsf
