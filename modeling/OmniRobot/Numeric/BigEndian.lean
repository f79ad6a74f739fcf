import Mathlib.Data.List.Forall2
import Mathlib.Tactic.Ring

/-!
# Big-endian messages

A message of fixed layout is a row of integer fields. Each is some bytes wide, most significant
byte first, and either unsigned or in two's complement. `Field.encode` does not ask which of the
two a field is; `Field.read` must.

## Main results

* `Field.read_encode`: a field that fits its width reads back;
* `readAll_encodeAll`: so does a whole message, field by field.
-/

namespace BigEndian

/-- The low `k` bytes of an integer, most significant first. -/
def encode : ℕ → ℤ → List UInt8
  | 0, _ => []
  | k + 1, z => UInt8.ofInt (z / 256 ^ k) :: encode k z

@[simp] theorem length_encode (k : ℕ) (z : ℤ) : (encode k z).length = k := by
  induction k with
  | zero => rfl
  | succ k ih => simp [encode, ih]

/-- The number that bytes spell. -/
def ofBytes : List UInt8 → ℕ
  | [] => 0
  | b :: l => b.toNat * 256 ^ l.length + ofBytes l

/-- The top byte of `k + 1` bytes and the rest. -/
theorem emod_pow_succ (z : ℤ) (k : ℕ) :
    z % 256 ^ (k + 1) = z / 256 ^ k % 256 * 256 ^ k + z % 256 ^ k := by
  have hpow : (0 : ℤ) < 256 ^ k := Int.pow_pos (by decide)
  rw [Int.emod_def z (256 ^ (k + 1)), Int.emod_def (z / 256 ^ k) 256, Int.emod_def z (256 ^ k),
    pow_succ, ← Int.ediv_ediv_of_nonneg hpow.le]
  ring

/-- A number is spelled by its low bytes, up to their range. -/
theorem ofBytes_encode (k : ℕ) (z : ℤ) : (ofBytes (encode k z) : ℤ) = z % 256 ^ k := by
  induction k with
  | zero => rw [pow_zero, Int.emod_one, encode, ofBytes, Nat.cast_zero]
  | succ k ih =>
    have hbyte : ((UInt8.ofInt (z / 256 ^ k)).toNat : ℤ) = z / 256 ^ k % 256 := by
      have hlt : (z / 256 ^ k % 256).toNat < 256 := by omega
      simp only [UInt8.ofInt, UInt8.toNat_ofNat']
      omega
    rw [encode, ofBytes, length_encode, emod_pow_succ]
    push_cast
    rw [hbyte, ih]

/-- Integers that agree up to the range of `k` bytes have the same bytes. -/
theorem encode_congr {k : ℕ} {z z' : ℤ} (h : z % 256 ^ k = z' % 256 ^ k) :
    encode k z = encode k z' := by
  induction k with
  | zero => rfl
  | succ k ih =>
    have hpow : (0 : ℤ) < 256 ^ k := Int.pow_pos (by decide)
    have htop : ∀ x : ℤ, x / 256 ^ k % 256 = x % 256 ^ (k + 1) / 256 ^ k := by
      intro x
      rw [emod_pow_succ, add_comm, Int.add_mul_ediv_right _ _ hpow.ne',
        Int.ediv_eq_zero_of_lt (Int.emod_nonneg _ hpow.ne') (Int.emod_lt_of_pos _ hpow), zero_add]
    have hrest : ∀ x : ℤ, x % 256 ^ k = x % 256 ^ (k + 1) % 256 ^ k :=
      fun x => (Int.emod_emod_of_dvd x (pow_dvd_pow 256 (Nat.le_succ k))).symm
    have hbyte : UInt8.ofInt (z / 256 ^ k) = UInt8.ofInt (z' / 256 ^ k) := by
      have hmod := htop z
      rw [h, ← htop z'] at hmod
      have h256 : (2 : ℤ) ^ 8 = 256 := by norm_num
      rw [UInt8.ofInt, UInt8.ofInt, h256, hmod]
    rw [encode, encode, hbyte, ih (by rw [hrest z, hrest z', h])]

/-! ### Fields -/

/-- An integer field of a message. -/
structure Field where
  /-- Its width in bytes. -/
  width : ℕ
  /-- Whether it is in two's complement. -/
  signed : Bool

namespace Field

/-- The integer in a field's bytes. -/
def read (f : Field) (l : List UInt8) : ℤ :=
  if f.signed then Int.bmod (ofBytes l) (256 ^ f.width) else ofBytes l

/-- An integer is in the range of a field. -/
def Fits (f : Field) (z : ℤ) : Prop :=
  if f.signed then -256 ^ f.width ≤ 2 * z ∧ 2 * z < 256 ^ f.width else 0 ≤ z ∧ z < 256 ^ f.width

theorem fits_unsigned {k : ℕ} {z : ℤ} : Fits ⟨k, false⟩ z ↔ 0 ≤ z ∧ z < 256 ^ k := Iff.rfl

theorem fits_signed {k : ℕ} {z : ℤ} :
    Fits ⟨k, true⟩ z ↔ -256 ^ k ≤ 2 * z ∧ 2 * z < 256 ^ k := Iff.rfl

/-- An integer in range reads back. -/
theorem read_encode {f : Field} {z : ℤ} (h : f.Fits z) : f.read (encode f.width z) = z := by
  unfold read
  unfold Fits at h
  split_ifs at h ⊢ with hsigned
  · have hbmod := Int.emod_bmod z (256 ^ f.width)
    push_cast at hbmod
    rw [ofBytes_encode, hbmod]
    apply Int.bmod_eq_of_le <;> push_cast <;> omega
  · rw [ofBytes_encode, Int.emod_eq_of_lt h.1 h.2]

end Field

/-! ### Messages -/

/-- A message: the fields one after the other. -/
def encodeAll : List Field → List ℤ → List UInt8
  | f :: fs, z :: zs => encode f.width z ++ encodeAll fs zs
  | _, _ => []

/-- The integers in a message. -/
def readAll : List Field → List UInt8 → List ℤ
  | [], _ => []
  | f :: fs, l => f.read (l.take f.width) :: readAll fs (l.drop f.width)

/-- A message of integers in range reads back. -/
theorem readAll_encodeAll {fs : List Field} {zs : List ℤ} (h : List.Forall₂ Field.Fits fs zs) :
    readAll fs (encodeAll fs zs) = zs := by
  induction h with
  | nil => rfl
  | @cons f z fs zs hz _ ih =>
    have hlen : (encode f.width z).length = f.width := length_encode f.width z
    rw [encodeAll, readAll, List.take_left' hlen, List.drop_left' hlen, Field.read_encode hz, ih]

end BigEndian
