import Checkpoint.DType.Convert
/-!
Tensors as strided views of shared buffers.  A memory is the list of its buffers; a tensor names
one by its index, so tensors that alias name the same buffer.  Strides and offsets count elements.
-/

namespace Checkpoint

/-- The number of elements of a shape, with every dimension as it is declared. -/
def numel : List Int → Int
  | [] => 1
  | n :: shape => n * numel shape

namespace Shape

def count : List Nat → Nat
  | [] => 1
  | n :: shape => n * count shape

/-- The strides of a row-major layout; an empty dimension counts as one. -/
def contiguousStrides : List Nat → List Nat
  | [] => []
  | _ :: shape => (shape.map (max 1)).foldr (· * ·) 1 :: contiguousStrides shape

/-- The addresses of all elements in row-major order. -/
def addresses : List Nat → List Nat → Nat → List Nat
  | [], _, base => [base]
  | n :: shape, strides, base =>
    (List.range n).flatMap fun i =>
      addresses shape strides.tail (base + i * strides.headD 0)

end Shape

structure Tensor where
  dtype : DType
  shape : List Nat
  stride : List Nat
  offset : Nat
  storage : Nat
  deriving DecidableEq, Repr, Inhabited

namespace Tensor

def numel (t : Tensor) : Nat := Shape.count t.shape

def addresses (t : Tensor) : List Nat :=
  if t.numel = 0 then [] else Shape.addresses t.shape t.stride t.offset

/-- The tensors that the first dimension runs through; a tensor without dimensions has none. -/
def rows? (t : Tensor) : Option (List Tensor) :=
  match t.shape with
  | [] => none
  | n :: shape => some ((List.range n).map fun i =>
    { t with shape, stride := t.stride.tail, offset := t.offset + i * t.stride.headD 0 })

/-- Whether the strides are those of a row-major layout, of which dimensions of size one and empty
tensors ask nothing. -/
def isContiguous (t : Tensor) : Bool :=
  t.numel == 0 || go t.shape.reverse t.stride.reverse 1
where
  go : List Nat → List Nat → Nat → Bool
    | n :: shape, s :: stride, expected =>
      if n = 1 then go shape stride expected else s == expected && go shape stride (expected * n)
    | _, _, _ => true

end Tensor

structure Memory where
  buffers : List Bytes := []
  deriving DecidableEq, Inhabited

namespace Memory

def buffer (m : Memory) (storage : Nat) : Bytes := m.buffers.getD storage []

/-- Adds a buffer, and says which storage it is. -/
def allocate (m : Memory) (bytes : Bytes) : Nat × Memory :=
  (m.buffers.length, ⟨m.buffers ++ [bytes]⟩)

def element (buffer : Bytes) (size address : Nat) : Bytes :=
  (buffer.drop (address * size)).take size

/-- The elements of a tensor in row-major order. -/
def elements (m : Memory) (t : Tensor) : List Bytes :=
  let buffer := m.buffer t.storage
  t.addresses.map (element buffer t.dtype.size)

/-- The values of a tensor in row-major order, where a truth value is 0 or 1 whatever its byte. -/
def values (m : Memory) (t : Tensor) : Bytes :=
  ((m.elements t).map (DType.convert t.dtype t.dtype)).flatten

end Memory

end Checkpoint
