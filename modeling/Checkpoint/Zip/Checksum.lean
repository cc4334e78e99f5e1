import Checkpoint.Bytes
/-!
The CRC-32 checksum of zip members: the remainder of the content as a polynomial over two
elements, with reflected bits, starting from and ending with the complement.
-/

namespace Checkpoint.Zip

def crcPolynomial : UInt32 := 0xedb88320

/-- Divides out one bit. -/
def crcBit (r : UInt32) : UInt32 :=
  if r &&& 1 = 1 then (r >>> 1) ^^^ crcPolynomial else r >>> 1

def crcByte (r : UInt32) (b : UInt8) : UInt32 :=
  crcBit (crcBit (crcBit (crcBit (crcBit (crcBit (crcBit (crcBit (r ^^^ b.toUInt32))))))))

/-- Takes `bytes` into a checksum of what precedes them. -/
def crc32From (checksum : UInt32) (bytes : Bytes) : UInt32 :=
  bytes.foldl crcByte (checksum ^^^ 0xffffffff) ^^^ 0xffffffff

def crc32 (bytes : Bytes) : UInt32 := crc32From 0 bytes

theorem crc32From_append (checksum : UInt32) (a b : Bytes) :
    crc32From checksum (a ++ b) = crc32From (crc32From checksum a) b := by
  simp only [crc32From, List.foldl_append, UInt32.xor_assoc, UInt32.xor_self, UInt32.xor_zero]

end Checkpoint.Zip
