import Checkpoint.Error
import Checkpoint.Tensor
/-!
Limits of tensors.  Sizes, strides and offsets are machine integers, and so are the products that
are made of them, whether there are elements or not.
-/

namespace Checkpoint

/-- The first number past the machine integers. -/
def machineLimit : Nat := 0x8000000000000000

namespace Shape

/-- Whether all products of sizes from the left, beginning with `product`, fit into 64 bits. -/
def productsFit : Nat → List Nat → Bool
  | _, [] => true
  | product, n :: shape => product * n < 2 * machineLimit && productsFit (product * n) shape

/-- Checks the numbers that describe a tensor, and then the number of its elements. -/
def require (numbers shape : List Nat) : Except Error Unit :=
  if numbers.any (machineLimit ≤ ·) then .error (.typeFault .dimension)
  else if productsFit 1 shape && count shape < machineLimit then .ok ()
  else .error (.tensorFault .tooLarge)

/-- Checks a shape in row-major layout. -/
def requireContiguous (shape : List Nat) : Except Error Unit := do
  require shape shape
  if machineLimit ≤ (contiguousStrides shape).headD 0 then throw (.tensorFault .tooLarge)

end Shape

namespace Tensor

/-- How many elements a storage needs for the view. -/
def reach (t : Tensor) : Nat :=
  if t.numel = 0 then 0
  else t.offset + ((t.shape.zip t.stride).map fun (n, stride) => (n - 1) * stride).foldl (· + ·) 1

/-- Checks a view of a storage that holds `held` bytes. -/
def requireWithin (t : Tensor) (held : Nat) : Except Error Unit := do
  Shape.require (t.offset :: t.shape ++ t.stride) t.shape
  if 0 < held ∧ held < t.reach * t.dtype.size then throw (.tensorFault .beyondStorage)

end Tensor

end Checkpoint
