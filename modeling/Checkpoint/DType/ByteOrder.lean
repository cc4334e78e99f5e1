import Checkpoint.DType
import Checkpoint.Bytes
/-!
Byte order: reversing the bytes of every element, and of every component where elements are
complex.
-/

namespace Checkpoint

/-- Reverses each group of `size` bytes; what is left over at the end stays. -/
def Bytes.reverseGroups (size : Nat) (bytes : Bytes) : Bytes :=
  if 0 < size ∧ size ≤ bytes.length then
    (bytes.take size).reverse ++ Bytes.reverseGroups size (bytes.drop size)
  else bytes
termination_by bytes.length
decreasing_by simp; omega

/-- Swaps the byte order of a buffer of elements; only a whole number of components can be
swapped. -/
def DType.byteswap? (d : DType) (bytes : Bytes) : Option Bytes :=
  if d.componentSize = 1 then some bytes
  else if bytes.length % d.componentSize = 0 then some (bytes.reverseGroups d.componentSize)
  else none

end Checkpoint
