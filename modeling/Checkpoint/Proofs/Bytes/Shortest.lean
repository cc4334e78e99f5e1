import Checkpoint.Proofs.Bytes

/-! A number has one two's complement form in each width that holds it, and the shortest of these is
what is left of a form with room for the magnitude once a spare sign byte is dropped. -/

namespace Checkpoint.Bytes

/-- Whether two's complement in `width` bytes can stand for `n`. -/
def HoldsSigned (width : Nat) (n : Int) : Prop :=
  -(256 ^ width : Nat) ≤ 2 * n ∧ 2 * n < (256 ^ width : Nat)

variable {width : Nat} {n : Int} {front bytes : Bytes} {b : UInt8}

theorem fromLittleEndianSigned_eq (bytes : Bytes) :
    fromLittleEndianSigned bytes =
      if 2 * fromLittleEndian bytes < 256 ^ bytes.length then (fromLittleEndian bytes : Int)
      else fromLittleEndian bytes - (256 ^ bytes.length : Nat) :=
  rfl

theorem holdsSigned_fromLittleEndianSigned (bytes : Bytes) :
    HoldsSigned bytes.length (fromLittleEndianSigned bytes) := by
  have bound : fromLittleEndian bytes < 256 ^ bytes.length := fromLittleEndian_lt bytes
  unfold HoldsSigned
  rw [fromLittleEndianSigned_eq]
  generalize 256 ^ bytes.length = size at *
  split <;> omega

theorem fromLittleEndianSigned_littleEndianSigned (h : HoldsSigned width n) :
    fromLittleEndianSigned (littleEndianSigned width n) = n :=
  fromLittleEndianSigned_of_range h.1 h.2

/-- Bytes are the only ones of their length that read as they do. -/
theorem littleEndianSigned_fromLittleEndianSigned (bytes : Bytes) :
    littleEndianSigned bytes.length (fromLittleEndianSigned bytes) = bytes := by
  have bound : fromLittleEndian bytes < 256 ^ bytes.length := fromLittleEndian_lt bytes
  have digits : (fromLittleEndianSigned bytes % (256 ^ bytes.length : Nat)).toNat =
      fromLittleEndian bytes := by
    rw [fromLittleEndianSigned_eq]
    generalize 256 ^ bytes.length = size at *
    split
    · rw [Int.emod_eq_of_lt (by omega) (by omega), Int.toNat_natCast]
    · rw [Int.sub_emod_right, Int.emod_eq_of_lt (by omega) (by omega), Int.toNat_natCast]
  calc littleEndianSigned bytes.length (fromLittleEndianSigned bytes)
      = littleEndian bytes.length (fromLittleEndian bytes) := congrArg _ digits
    _ = bytes := littleEndian_fromLittleEndian bytes

theorem HoldsSigned.mono {wider : Nat} (h : HoldsSigned width n) (hw : width ≤ wider) :
    HoldsSigned wider n := by
  have grows : 256 ^ width ≤ 256 ^ wider := Nat.pow_le_pow_right (by decide) hw
  obtain ⟨low, high⟩ := h
  constructor <;> omega

theorem holdsSigned_signedWidth (n : Int) : HoldsSigned (signedWidth n) n := by
  have high := @lt_signedWidth n
  have low := @neg_lt_signedWidth n
  unfold HoldsSigned
  generalize 256 ^ signedWidth n = size at *
  omega

theorem holdsSigned_succ : HoldsSigned (width + 1) n ↔
    -(2 ^ (8 * width + 7) : Nat) ≤ n ∧ n < (2 ^ (8 * width + 7) : Nat) := by
  have size : 256 ^ (width + 1) = 2 * 2 ^ (8 * width + 7) := by
    calc 256 ^ (width + 1) = (2 ^ 8) ^ (width + 1) := rfl
      _ = 2 ^ (8 * (width + 1)) := (Nat.pow_mul ..).symm
      _ = 2 * 2 ^ (8 * width + 7) := Nat.pow_succ'
  unfold HoldsSigned
  rw [size]
  omega

theorem signedWidth_le_iff : signedWidth n ≤ width ↔ HoldsSigned width n := by
  constructor
  · intro h
    exact (holdsSigned_signedWidth n).mono h
  · intro h
    cases width with
    | zero =>
      obtain ⟨low, high⟩ := h
      obtain rfl : n = 0 := by omega
      exact Nat.le_refl 0
    | succ width =>
      obtain ⟨low, high⟩ := holdsSigned_succ.1 h
      have bound := signedWidth_le low high
      omega

@[simp] theorem length_shortestSigned (n : Int) : (shortestSigned n).length = signedWidth n :=
  length_littleEndianSigned ..

theorem eq_shortestSigned_or_lt (bytes : Bytes) :
    bytes = shortestSigned (fromLittleEndianSigned bytes) ∨
      (shortestSigned (fromLittleEndianSigned bytes)).length < bytes.length := by
  have least : signedWidth (fromLittleEndianSigned bytes) ≤ bytes.length :=
    signedWidth_le_iff.2 (holdsSigned_fromLittleEndianSigned bytes)
  rw [length_shortestSigned]
  obtain hw | hw := Nat.eq_or_lt_of_le least
  · left
    rw [shortestSigned, hw, littleEndianSigned_fromLittleEndianSigned]
  · exact .inr hw

section Trimming

theorem fromLittleEndian_concat (front : Bytes) (b : UInt8) :
    fromLittleEndian (front ++ [b]) = fromLittleEndian front + 256 ^ front.length * b.toNat := by
  induction front with
  | nil => simp [fromLittleEndian]
  | cons a front ih =>
    simp only [List.cons_append, fromLittleEndian, ih, List.length_cons]
    ring

/-- The upper half of the last byte holds the sign. -/
theorem fromLittleEndianSigned_concat (front : Bytes) (b : UInt8) :
    fromLittleEndianSigned (front ++ [b]) =
      fromLittleEndian front + (256 ^ front.length : Nat) *
        (if b.toNat < 0x80 then (b.toNat : Int) else b.toNat - 256) := by
  have bound : fromLittleEndian front < 256 ^ front.length := fromLittleEndian_lt front
  rw [fromLittleEndianSigned_eq, fromLittleEndian_concat, List.length_append, List.length_singleton,
    Nat.pow_succ]
  generalize 256 ^ front.length = size at *
  by_cases positive : b.toNat < 0x80
  · have product : size * b.toNat ≤ size * 0x7f := Nat.mul_le_mul_left size (by omega)
    rw [if_pos (by omega), if_pos positive]
    push_cast
    rfl
  · have product : size * 0x80 ≤ size * b.toNat := Nat.mul_le_mul_left size (by omega)
    rw [if_neg (by omega), if_neg positive]
    push_cast
    ring

theorem fromLittleEndianSigned_neg_iff :
    fromLittleEndianSigned (front ++ [b]) < 0 ↔ 0x80 ≤ b.toNat := by
  have bound : fromLittleEndian front < 256 ^ front.length := fromLittleEndian_lt front
  have hb := b.toNat_lt
  rw [fromLittleEndianSigned_concat]
  generalize 256 ^ front.length = size at *
  split
  · next positive =>
    have product : (0 : Int) ≤ size * b.toNat :=
      Int.mul_nonneg (by omega) (by omega)
    omega
  · next negative =>
    have product : (size : Int) * (b.toNat - 256) ≤ size * (-1) :=
      mul_le_mul_of_nonneg_left (by omega) (by omega)
    omega

/-- A byte of ones behind a negative number says nothing new. -/
theorem fromLittleEndianSigned_signByte (h : 0x80 ≤ b.toNat) :
    fromLittleEndianSigned (front ++ [b, 0xff]) = fromLittleEndianSigned (front ++ [b]) := by
  rw [show front ++ [b, 0xff] = (front ++ [b]) ++ [0xff] by simp, fromLittleEndianSigned_concat,
    fromLittleEndianSigned_concat, fromLittleEndian_concat, List.length_append, List.length_singleton,
    if_neg (by decide), if_neg (by omega)]
  push_cast
  ring

/-- Whether the last byte only repeats the sign of the one before it. -/
def hasSpareSign (bytes : Bytes) : Bool :=
  match bytes.reverse with
  | last :: before :: _ => last == 0xff && 0x80 ≤ before.toNat
  | _ => false

theorem hasSpareSign_iff :
    hasSpareSign bytes = true ↔ ∃ front b, bytes = front ++ [b, 0xff] ∧ 0x80 ≤ b.toNat := by
  unfold hasSpareSign
  split
  · next last before front hb =>
    obtain rfl := List.reverse_eq_iff.1 hb
    constructor
    · intro h
      simp only [Bool.and_eq_true, beq_iff_eq, decide_eq_true_eq] at h
      exact ⟨front.reverse, before, by simp [h.1], h.2⟩
    · rintro ⟨front', b, h, sign⟩
      have ends := congrArg List.reverse h
      simp only [List.reverse_reverse, List.reverse_append, List.reverse_cons, List.reverse_nil,
        List.nil_append, List.cons_append, List.cons.injEq] at ends
      simp [ends.1, ends.2.1, sign]
  · next short =>
    constructor
    · exact nofun
    · rintro ⟨front, b, rfl, -⟩
      exact (short 0xff b front.reverse (by simp)).elim

/-- The form with room for the magnitude and a sign, without the spare byte that a negative number
may have there. -/
def trimmedSigned (n : Int) : Bytes :=
  if n = 0 then []
  else
    let bytes := littleEndianSigned (bitLength n.natAbs / 8 + 1) n
    if n < 0 ∧ hasSpareSign bytes then bytes.dropLast else bytes

theorem bitLength_succ_le (n : Nat) : bitLength (n + 1) ≤ bitLength n + 1 :=
  bitLength_le (by
    have bound := lt_two_pow_bitLength n
    rw [Nat.pow_succ]
    omega)

theorem bitLength_mono {m n : Nat} (h : m ≤ n) : bitLength m ≤ bitLength n :=
  bitLength_le (Nat.lt_of_le_of_lt h (lt_two_pow_bitLength n))

/-- Room for the magnitude is at most one byte too much. -/
theorem signedWidth_of_neg (h : n < 0) :
    signedWidth n ≤ bitLength n.natAbs / 8 + 1 ∧ bitLength n.natAbs / 8 + 1 ≤ signedWidth n + 1 := by
  obtain ⟨m, rfl⟩ : ∃ m : Nat, n = -(m + 1 : Nat) := ⟨(-n - 1).toNat, by omega⟩
  have grows := bitLength_mono (Nat.le_add_right m 1)
  have slowly := bitLength_succ_le m
  unfold signedWidth
  rw [if_neg (by omega), if_pos h, show (- -((m + 1 : Nat) : Int) - 1).toNat = m by omega,
    show (-((m + 1 : Nat) : Int)).natAbs = m + 1 by omega]
  omega

/-- In one byte more than it needs, a negative number has a spare sign. -/
theorem hasSpareSign_of_neg (h : n < 0) :
    hasSpareSign (littleEndianSigned (signedWidth n + 1) n) = true := by
  have read := fromLittleEndianSigned_shortestSigned n
  have length := length_shortestSigned n
  obtain empty | ⟨front, b, hs⟩ := List.eq_nil_or_concat (shortestSigned n)
  · rw [empty] at read
    exact absurd read h.ne'
  · rw [List.concat_eq_append] at hs
    rw [hs] at read length
    have sign : 0x80 ≤ b.toNat := fromLittleEndianSigned_neg_iff.1 (read ▸ h)
    refine hasSpareSign_iff.2 ⟨front, b, ?_, sign⟩
    calc littleEndianSigned (signedWidth n + 1) n
        = littleEndianSigned (front ++ [b, 0xff]).length (fromLittleEndianSigned (front ++ [b, 0xff])) := by
          rw [fromLittleEndianSigned_signByte sign, read, ← length]
          simp
      _ = front ++ [b, 0xff] := littleEndianSigned_fromLittleEndianSigned _

theorem trimmedSigned_eq_shortestSigned (n : Int) : trimmedSigned n = shortestSigned n := by
  unfold trimmedSigned
  obtain negative | rfl | positive := lt_trichotomy n 0
  · rw [if_neg negative.ne]
    obtain ⟨wide, close⟩ := signedWidth_of_neg negative
    generalize bitLength n.natAbs / 8 + 1 = width at *
    have read : fromLittleEndianSigned (littleEndianSigned width n) = n :=
      fromLittleEndianSigned_littleEndianSigned (signedWidth_le_iff.1 wide)
    have length := length_littleEndianSigned width n
    by_cases spare : hasSpareSign (littleEndianSigned width n)
    · -- What is left reads as the same number, and no form is shorter.
      obtain ⟨front, b, hbytes, sign⟩ := hasSpareSign_iff.1 spare
      rw [hbytes] at read length
      rw [fromLittleEndianSigned_signByte sign] at read
      simp only [negative, spare, and_self, if_true]
      rw [hbytes, show front ++ [b, 0xff] = (front ++ [b]) ++ [0xff] by simp, List.dropLast_concat]
      obtain shortest | longer := eq_shortestSigned_or_lt (front ++ [b])
      · rw [shortest, read]
      · simp only [read, length_shortestSigned, List.length_append, List.length_cons,
          List.length_nil] at longer length
        omega
    · -- A form with one byte less would have left its sign in the last byte.
      rw [if_neg fun h => spare h.2]
      obtain hw | hw : width = signedWidth n ∨ width = signedWidth n + 1 := by omega
      · rw [hw, shortestSigned]
      · exact absurd (hw ▸ hasSpareSign_of_neg negative) spare
  · rfl
  · rw [if_neg positive.ne', if_neg (by omega), shortestSigned, signedWidth, if_neg positive.ne',
      if_neg (by omega), show n.natAbs = n.toNat by omega]

example : trimmedSigned (-128) = [0x80] ∧ trimmedSigned (-129) = [0x7f, 0xff] := by decide

end Trimming

end Checkpoint.Bytes
