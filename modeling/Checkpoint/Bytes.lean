/-!
Byte strings, and the fixed-width integer fields that are written in them.  A field of `width`
bytes holds a number modulo `256 ^ width`; signed fields are in two's complement.
-/

namespace Checkpoint

abbrev Bytes := List UInt8

namespace Bytes

/-- The `width` low bytes of `n`, least significant first. -/
def littleEndian : Nat → Nat → Bytes
  | 0, _ => []
  | width + 1, n => UInt8.ofNat n :: littleEndian width (n / 256)

/-- The number whose digits in base 256 are the given bytes, least significant first. -/
def fromLittleEndian : Bytes → Nat
  | [] => 0
  | b :: rest => b.toNat + 256 * fromLittleEndian rest

def bigEndian (width n : Nat) : Bytes :=
  (littleEndian width n).reverse

def fromBigEndian (bytes : Bytes) : Nat :=
  fromLittleEndian bytes.reverse

/-- Two's complement in `width` bytes. -/
def littleEndianSigned (width : Nat) (n : Int) : Bytes :=
  littleEndian width (n % (Nat.pow 256 width : Nat)).toNat

/-- Reads two's complement: the upper half of the range stands for the negative numbers. -/
def fromLittleEndianSigned (bytes : Bytes) : Int :=
  let n := fromLittleEndian bytes
  if 2 * n < Nat.pow 256 bytes.length then n else (n : Int) - (Nat.pow 256 bytes.length : Nat)

/-- How many binary digits `n` has; none for zero. -/
def bitLength (n : Nat) : Nat :=
  if n = 0 then 0 else n.log2 + 1

/-- The fewest bytes whose two's complement holds `n`; zero needs none. -/
def signedWidth (n : Int) : Nat :=
  if n = 0 then 0
  else if n < 0 then bitLength (-n - 1).toNat / 8 + 1
  else bitLength n.toNat / 8 + 1

/-- The shortest little-endian two's complement form of `n`. -/
def shortestSigned (n : Int) : Bytes :=
  littleEndianSigned (signedWidth n) n

@[simp] theorem length_littleEndian (width n : Nat) : (littleEndian width n).length = width := by
  induction width generalizing n with
  | zero => rfl
  | succ width ih => simp [littleEndian, ih]

@[simp] theorem length_bigEndian (width n : Nat) : (bigEndian width n).length = width := by
  simp [bigEndian]

theorem fromLittleEndian_littleEndian (width n : Nat) :
    fromLittleEndian (littleEndian width n) = n % Nat.pow 256 width := by
  induction width generalizing n with
  | zero => simp [littleEndian, fromLittleEndian, Nat.mod_one]
  | succ width ih =>
    simp only [littleEndian, fromLittleEndian, ih, UInt8.toNat_ofNat']
    show n % 256 + 256 * (n / 256 % Nat.pow 256 width) = n % (Nat.pow 256 width * 256)
    rw [Nat.mul_comm (Nat.pow 256 width) 256, Nat.mod_mul]

theorem fromLittleEndian_lt (bytes : Bytes) : fromLittleEndian bytes < Nat.pow 256 bytes.length := by
  induction bytes with
  | nil => simp [fromLittleEndian]
  | cons b rest ih =>
    have hb := b.toNat_lt
    show b.toNat + 256 * fromLittleEndian rest < Nat.pow 256 rest.length * 256
    omega

theorem littleEndian_fromLittleEndian (bytes : Bytes) :
    littleEndian bytes.length (fromLittleEndian bytes) = bytes := by
  induction bytes with
  | nil => rfl
  | cons b rest ih =>
    have hb := b.toNat_lt
    simp only [List.length_cons, littleEndian, fromLittleEndian]
    rw [show (b.toNat + 256 * fromLittleEndian rest) / 256 = fromLittleEndian rest by omega, ih]
    congr 1
    apply UInt8.toNat_inj.1
    rw [UInt8.toNat_ofNat']
    omega

end Bytes

end Checkpoint
