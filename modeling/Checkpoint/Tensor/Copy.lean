import Checkpoint.Error
import Checkpoint.Tensor
/-!
Copying between tensors that may share storage.  A copy is refused if the target repeats an element,
or if source and target, both without gaps, share a part of their storage.
-/

namespace Checkpoint

namespace Tensor

/-- The dimensions that elements are spread along, each with its stride. -/
def extents (t : Tensor) : List (Nat × Nat) :=
  (t.shape.zip t.stride).filter fun (n, _) => 1 < n

/-- Whether each stride is the number of elements that the dimensions before it span. -/
def fillsFrom : Nat → List (Nat × Nat) → Bool
  | _, [] => true
  | count, (n, stride) :: rest => stride == count && fillsFrom (count * n) rest

/-- Whether the elements fill a range of the storage, each place once. -/
def isDense (t : Tensor) : Bool :=
  t.isContiguous || fillsFrom 1 (t.extents.mergeSort fun a b => a.2 ≤ b.2)

/-- Whether one element is certain to be in several places. -/
def repeatsElements (t : Tensor) : Bool :=
  !t.isDense && t.extents.any fun (_, stride) => stride == 0

/-- The bytes that a tensor without gaps fills: the first, and the first after them. -/
def range (t : Tensor) : Nat × Nat :=
  (t.offset * t.dtype.size, (t.offset + t.numel) * t.dtype.size)

/-- Whether two tensors share some bytes but are not the same elements in the same order.  Only
tensors without gaps are looked at. -/
def overlapsPartly (a b : Tensor) : Bool :=
  a.storage == b.storage && 0 < a.numel && 0 < b.numel && a.isDense && b.isDense &&
    if a.range = b.range then a.stride != b.stride
    else a.range.1 < b.range.2 && b.range.1 < a.range.2

/-- Whether elements are converted in one run, without regard to shared storage. -/
def copiesAsRun (source target : Tensor) : Bool :=
  (source.dtype == .float32 && target.dtype == .float16 ||
      source.dtype == .float16 && target.dtype == .float32) &&
    (source.isContiguous && target.isContiguous || target.isDense && source.stride == target.stride)

end Tensor

namespace Memory

/-- Replaces the bytes from `position` on; the rest of the buffer stays. -/
def splice (buffer : Bytes) (position : Nat) (bytes : Bytes) : Bytes :=
  buffer.take position ++ bytes ++ buffer.drop (position + bytes.length)

/-- Overwrites the elements of a tensor, given in row-major order. -/
def write (m : Memory) (t : Tensor) (elements : List Bytes) : Memory :=
  let updated := (t.addresses.zip elements).foldl
    (fun buffer (address, bytes) => splice buffer (address * t.dtype.size) bytes)
    (m.buffer t.storage)
  ⟨m.buffers.set t.storage updated⟩

/-- Whether neither side has gaps between its elements. -/
def isRun (source target : Tensor) : Bool :=
  source.isContiguous && target.isContiguous || source.copiesAsRun target

/-- The elements of `source` as elements of `target`. -/
def converted (m : Memory) (source target : Tensor) : List Bytes :=
  let elements := m.elements source
  if isRun source target then DType.convertRun source.dtype target.dtype elements
  else elements.map (DType.convert source.dtype target.dtype)

/-- Copies the elements within one storage, in row-major order: a later one sees what the earlier ones
have overwritten. -/
def copyInTurn (m : Memory) (source target : Tensor) : Memory :=
  let convert (bytes : Bytes) : Bytes :=
    if isRun source target then (DType.convertRun source.dtype target.dtype [bytes]).flatten
    else DType.convert source.dtype target.dtype bytes
  let updated := (source.addresses.zip target.addresses).foldl
    (fun buffer (a, b) =>
      splice buffer (b * target.dtype.size) (convert (element buffer source.dtype.size a)))
    (m.buffer target.storage)
  ⟨m.buffers.set target.storage updated⟩

/-- Copies all elements of `source` into `target`.  Within one storage only long runs are read before
they are written. -/
def copyElements (m : Memory) (source target : Tensor) : Memory :=
  if source.storage = target.storage ∧
      (!isRun source target || source.numel ≤ DType.groupSize) then
    m.copyInTurn source target
  else m.write target (m.converted source target)

/-- Copies `source` into `target`, converting between their types, unless they share storage in a way
that is refused.  A tensor is left as it is by a copy of itself. -/
def copy (m : Memory) (source target : Tensor) : Except TensorFault Memory :=
  if source.copiesAsRun target then .ok (m.copyElements source target)
  else if source = target then .ok m
  else if target.repeatsElements then .error .repeatedElements
  else if target.overlapsPartly source then .error .partialOverlap
  else .ok (m.copyElements source target)

end Memory

end Checkpoint
