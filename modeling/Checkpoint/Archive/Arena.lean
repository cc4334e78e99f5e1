import Checkpoint.Archive.Reader
import Checkpoint.Pickle.Value
import Checkpoint.DType.ByteOrder
import Checkpoint.Tensor.Limits
/-!
The storages that one load refers to.  A reference registers its storage after the size of the
member has been compared; views are checked against the registered size; the bytes are read when
the first view of them is made.
-/

namespace Checkpoint.Archive

open Pickle

/-- A registered storage: its element type and its declared size. -/
structure Blob where
  key : Text
  dtype : DType
  count : Int
  size : Int
  deriving DecidableEq

structure Arena where
  reader : Reader
  blobs : Table Text Blob := {}
  /-- The storages read so far, in the order of their first use. -/
  loaded : Table Text Bytes := {}

namespace Arena

def ofReader (reader : Reader) : Arena := { reader }

/-- Forgets all storages. -/
def close (a : Arena) : Arena := { a with blobs := {}, loaded := {} }

/-- Registers the storage of a reference.  The member has to exist with the declared length; a
repeated reference has only to agree on the element type. -/
def resolve (a : Arena) (r : PersistentRef) : Except Error (Blob × Arena) :=
  match a.blobs.get? r.key with
  | some blob =>
    if blob.dtype = r.dtype then .ok (blob, a)
    else .error (.unexpectedStructure (.storageTypes r.key blob.dtype r.dtype))
  | none => do
    let size := r.count * r.dtype.size
    let actual ← a.reader.storageSize r.key
    if (actual : Int) ≠ size then
      throw (.unexpectedStructure (.storageLength r.key actual size r.count r.dtype))
    let blob : Blob := { key := r.key, dtype := r.dtype, count := r.count, size }
    return (blob, { a with blobs := a.blobs.insert r.key blob })

/-- Whether a view fits into a storage of `count` elements. -/
def checkView (t : TensorRef) (count : Int) : Except StructureError Unit :=
  if t.shape.length ≠ t.stride.length then .error (.rank t.shape t.stride)
  else if t.offset < 0 ∨ t.shape.any (· < 0) ∨ t.stride.any (· < 0) then
    .error (.negative t.shape t.stride t.offset)
  else if count < t.extent then .error (.exceeds t.shape t.stride t.offset t.storageKey count)
  else .ok ()

/-- Whether a view fits into its storage, which has to be registered with the view's type. -/
def check (a : Arena) (t : TensorRef) : Except Error Unit :=
  match a.blobs.get? t.storageKey with
  | none => .error (.unexpectedStructure (.unregistered t.storageKey))
  | some blob =>
    if blob.dtype ≠ t.dtype then
      .error (.unexpectedStructure (.viewType t.dtype t.storageKey blob.dtype))
    else (checkView t blob.count).mapError .unexpectedStructure

/-- The bytes of a registered storage in the order of the host, read on first use. -/
def storage (a : Arena) (key : Text) : Action (Bytes × Arena) := do
  match a.blobs.get? key with
  | none => throw (.unknownKey key)
  | some blob =>
    match a.loaded.get? key with
    | some bytes => return (bytes, a)
    | none =>
      let raw ← a.reader.readStorage key
      let bytes ←
        if a.reader.byteOrder = ByteOrder.host then pure raw
        else match blob.dtype.byteswap? raw with
          | some bytes => pure bytes
          | none => throw .unevenBuffer
      return (bytes, { a with loaded := a.loaded.insert key bytes })

/-- The buffers of all storages read so far. -/
def memory (a : Arena) : Memory := ⟨a.loaded.values⟩

/-- The place of a storage among those that have been read. -/
def storageIndex (a : Arena) (key : Text) : Nat := a.loaded.keys.idxOf key

/-- The tensor of a view that fits, over the arena's buffers. -/
def materialize (a : Arena) (t : TensorRef) : Action (Tensor × Arena) := do
  Effect.ofExcept (a.check t)
  let (bytes, a) ← a.storage t.storageKey
  let tensor : Tensor := {
    dtype := t.dtype
    shape := t.shape.map Int.toNat
    stride := t.stride.map Int.toNat
    offset := t.offset.toNat
    storage := a.storageIndex t.storageKey }
  Effect.ofExcept (tensor.requireWithin bytes.length)
  return (tensor, a)

/-- The tensors of several views, in order. -/
def materializeAll (a : Arena) : List (Text × TensorRef) → Action (List (Text × Tensor) × Arena)
  | [] => return ([], a)
  | (name, ref) :: rest => do
    let (tensor, a) ← a.materialize ref
    let (tensors, a) ← a.materializeAll rest
    return ((name, tensor) :: tensors, a)

end Arena

end Checkpoint.Archive
