import Checkpoint.DType.ByteOrder
import Mathlib.Tactic.Ring
import Mathlib.Algebra.Order.Ring.Int

/-! Integers that fit a field are read as they were written, and elements keep their bytes when their order
is swapped. -/

namespace Checkpoint.Bytes

theorem fromLittleEndian_of_lt {width n : Nat} (h : n < 256 ^ width) :
    fromLittleEndian (littleEndian width n) = n := by
  rw [fromLittleEndian_littleEndian]
  exact Nat.mod_eq_of_lt h

theorem fromBigEndian_of_lt {width n : Nat} (h : n < 256 ^ width) :
    fromBigEndian (bigEndian width n) = n := by
  rw [fromBigEndian, bigEndian, List.reverse_reverse]
  exact fromLittleEndian_of_lt h

@[simp] theorem length_littleEndianSigned (width : Nat) (n : Int) :
    (littleEndianSigned width n).length = width :=
  length_littleEndian ..

theorem fromLittleEndianSigned_of_range {width : Nat} {n : Int}
    (low : -(256 ^ width : Nat) ≤ 2 * n) (high : 2 * n < (256 ^ width : Nat)) :
    fromLittleEndianSigned (littleEndianSigned width n) = n := by
  have read : fromLittleEndian (littleEndianSigned width n) =
      (n % (256 ^ width : Nat)).toNat % 256 ^ width :=
    fromLittleEndian_littleEndian ..
  unfold fromLittleEndianSigned
  rw [read, length_littleEndianSigned]
  change (if 2 * _ < 256 ^ width then _ else _ - ((256 ^ width : Nat) : Int)) = n
  have hb : 0 < 256 ^ width := Nat.pow_pos (by decide)
  generalize 256 ^ width = size at *
  have residue : n % (size : Int) = if n < 0 then n + size else n := by
    split
    · rw [← Int.add_emod_right]
      exact Int.emod_eq_of_lt (by omega) (by omega)
    · exact Int.emod_eq_of_lt (by omega) (by omega)
  rw [Nat.mod_eq_of_lt (by omega), residue]
  omega

theorem lt_two_pow_bitLength (n : Nat) : n < 2 ^ bitLength n := by
  unfold bitLength
  split
  · omega
  · exact Nat.lt_log2_self

/-- A number has a sign bit to spare in its width. -/
theorem lt_pow_width {n k : Nat} (h : n < 2 ^ k) : 2 * n + 1 < 256 ^ (k / 8 + 1) := by
  calc 2 * n + 1 < 2 * 2 ^ k := by omega
    _ = 2 ^ (k + 1) := by ring
    _ ≤ 2 ^ (8 * (k / 8 + 1)) := Nat.pow_le_pow_right (by decide) (by omega)
    _ = 256 ^ (k / 8 + 1) := by rw [Nat.pow_mul]

theorem bitLength_le {n k : Nat} (h : n < 2 ^ k) : bitLength n ≤ k := by
  unfold bitLength
  split
  · exact Nat.zero_le k
  · next h0 => exact (Nat.log2_lt h0).2 h

theorem signedWidth_le {n : Int} {k : Nat} (low : -(2 ^ k : Nat) ≤ n) (high : n < (2 ^ k : Nat)) :
    signedWidth n ≤ k / 8 + 1 := by
  have positive := bitLength_le (n := n.toNat) (k := k)
  have negative := bitLength_le (n := (-n - 1).toNat) (k := k)
  have hb : 0 < 2 ^ k := Nat.pow_pos (by decide)
  unfold signedWidth
  generalize 2 ^ k = size at *
  split
  · omega
  · split <;> omega

theorem lt_signedWidth {n : Int} (h : 0 ≤ n) : 2 * n.toNat < 256 ^ signedWidth n := by
  unfold signedWidth
  split
  · simp_all
  · rw [if_neg (by omega)]
    exact Nat.lt_of_succ_lt (lt_pow_width (lt_two_pow_bitLength _))

theorem neg_lt_signedWidth {n : Int} (h : n < 0) :
    2 * (-n - 1).toNat + 1 < 256 ^ signedWidth n := by
  unfold signedWidth
  rw [if_neg (by omega), if_pos h]
  exact lt_pow_width (lt_two_pow_bitLength _)

theorem fromLittleEndianSigned_shortestSigned (n : Int) :
    fromLittleEndianSigned (shortestSigned n) = n := by
  have high := @lt_signedWidth n
  have low := @neg_lt_signedWidth n
  unfold shortestSigned
  apply fromLittleEndianSigned_of_range <;> generalize 256 ^ signedWidth n = size at * <;> omega

@[simp] theorem length_reverseGroups (size : Nat) (bytes : Bytes) :
    (bytes.reverseGroups size).length = bytes.length := by
  fun_induction reverseGroups size bytes with
  | case1 bytes h ih =>
    rw [List.length_append, ih, List.length_reverse, List.length_take, List.length_drop]
    omega
  | case2 => rfl

/-- In its group a byte changes places with the one as far from the end. -/
theorem getElem?_reverseGroups {size : Nat} {bytes : Bytes} (whole : bytes.length % size = 0) {i : Nat}
    (hi : i < bytes.length) :
    (bytes.reverseGroups size)[i]? = bytes[i / size * size + (size - 1 - i % size)]? := by
  fun_induction reverseGroups size bytes generalizing i with
  | case1 bytes h ih =>
    have first : (bytes.take size).reverse.length = size := by
      rw [List.length_reverse, List.length_take]
      omega
    by_cases low : i < size
    · have place : size - 1 - i < size := by omega
      rw [List.getElem?_append_left (first.symm ▸ low), List.getElem?_reverse (by simp; omega),
        Nat.div_eq_of_lt low, Nat.mod_eq_of_lt low, List.length_take, Nat.min_eq_left h.2,
        List.getElem?_take_of_lt place, Nat.zero_mul, Nat.zero_add]
    · -- In the groups behind, every place is one group less.
      obtain ⟨j, rfl⟩ := Nat.exists_eq_add_of_le (Nat.le_of_not_lt low)
      rw [List.getElem?_append_right (first.symm ▸ Nat.le_of_not_lt low), first, Nat.add_sub_cancel_left,
        ih ?_ ?_, List.getElem?_drop, Nat.add_mod_left, Nat.add_div_left _ h.1, Nat.succ_mul]
      · congr 1
        omega
      · rw [List.length_drop, ← Nat.mod_eq_sub_mod h.2, whole]
      · rw [List.length_drop]
        omega
  | case2 bytes h =>
    -- Less than a group is nothing.
    by_cases positive : 0 < size
    · rw [Nat.mod_eq_of_lt (by omega)] at whole
      omega
    · obtain rfl : size = 0 := by omega
      rw [Nat.mod_zero] at whole
      omega

end Checkpoint.Bytes
