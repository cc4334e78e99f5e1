import Checkpoint.Error
import Checkpoint.Tensor
/-!
Tensors as byte strings.  Where the elements are evenly spaced they are taken from the storage as they
are, and then have to be adjacent unless they are single bytes; all others are copied one by one.
-/

namespace Checkpoint

namespace Tensor

/-- Whether all dimensions, inner ones first, go on with the spacing of `count` elements. -/
def isSpaced (spacing : Nat) : Nat → List (Nat × Nat) → Bool
  | _, [] => true
  | count, (n, stride) :: outer => stride == count * spacing && isSpaced spacing (count * n) outer

/-- The distance between neighbours where it is the same for all of them.  A single element has that
of its last dimension. -/
def spacing? (t : Tensor) : Option Nat :=
  if t.numel = 1 then some (t.stride.getLast?.getD 1)
  else
    match ((t.shape.zip t.stride).filter fun (n, _) => n ≠ 1).reverse with
    | [] => some 1
    | (n, spacing) :: outer => if isSpaced spacing n outer then some spacing else none

end Tensor

namespace Memory

/-- The bytes of a tensor in row-major order. -/
def flat (m : Memory) (t : Tensor) : Except TensorFault Bytes :=
  match t.spacing? with
  | none => .ok (m.values t)
  | some spacing =>
    if t.numel ≠ 0 ∧ t.dtype.size ≠ 1 ∧ spacing ≠ 1 then .error .gaps
    else .ok (m.elements t).flatten

end Memory

end Checkpoint
