import Checkpoint.Binary.Double
import Checkpoint.DType
import Checkpoint.Table
import Checkpoint.Bytes
/-!
The values that an object stream describes.  Scalars and tuples are values by themselves; lists and
mappings are objects on a heap, since they can be shared, changed and cyclic.  Whatever would call
code elsewhere is a tagged record.  A float and a tuple remember the offset of the instruction that
made them: nothing else tells two NaNs apart as keys, or one tuple from its copies.
-/

namespace Checkpoint.Pickle

/-- The constructors that a stream may call. -/
inductive Constructor
  | orderedDict
  | rebuildTensor
  | rebuildTensorV2
  | rebuildParameter
  deriving DecidableEq, Repr

namespace Constructor

def all : List Constructor := [orderedDict, rebuildTensor, rebuildTensorV2, rebuildParameter]

def module : Constructor → Text
  | orderedDict => "collections"
  | _ => "torch._utils"

def name : Constructor → Text
  | orderedDict => "OrderedDict"
  | rebuildTensor => "_rebuild_tensor"
  | rebuildTensorV2 => "_rebuild_tensor_v2"
  | rebuildParameter => "_rebuild_parameter"

end Constructor

/-- The attribute of an ordered mapping that holds its metadata. -/
def metadataName : Text := "_metadata"

/-- A storage of the archive, by key; its bytes are not read yet. -/
structure PersistentRef where
  key : Text
  dtype : DType
  count : Int
  location : Text
  deriving DecidableEq

/-- A strided view of a storage.  Offset and strides count elements; nothing is checked yet. -/
structure TensorRef where
  dtype : DType
  shape : List Int
  stride : List Int
  storageKey : Text
  offset : Int := 0
  requiresGrad : Bool := false
  deriving DecidableEq

namespace TensorRef

def numel (t : TensorRef) : Int := t.shape.foldr (· * ·) 1

/-- How far the last element of a view is from its first. -/
def reach : List Int → List Int → Int
  | n :: shape, s :: stride => (n - 1) * s + reach shape stride
  | _, _ => 0

/-- The number of storage elements that are needed to address every element of the view. -/
def extent (t : TensorRef) : Int :=
  if t.numel = 0 then t.offset else t.offset + reach t.shape t.stride + 1

end TensorRef

inductive Value
  | none
  | bool (b : Bool)
  | int (n : Int)
  | float (x : Double) (birth : Nat)
  | text (t : Text)
  | bytes (b : Bytes)
  | tuple (items : List Value) (birth : Nat)
  | object (id : Nat)
  | constructor (c : Constructor)
  | storageClass (name : Text) (dtype : DType)
  | scalarType (name : Text) (dtype : DType)
  | persistent (r : PersistentRef)
  | tensor (t : TensorRef)
  deriving Inhabited

namespace Value

mutual

/-- Whether a value can be a key: objects that change cannot, nor can tuples that hold one. -/
def hashable : Value → Bool
  | object _ => false
  | tuple items _ => allHashable items
  | _ => true

def allHashable : List Value → Bool
  | [] => true
  | v :: rest => hashable v && allHashable rest

end

/-- The value of a truth value or an integer. -/
def integer? : Value → Option Int
  | bool b => some (if b then 1 else 0)
  | int n => some n
  | _ => Option.none

mutual

/-- Whether two keys are the same: numbers by value whatever their type, all else by content.  A
NaN is the same as itself only. -/
def same : Value → Value → Bool
  | float x a, float y b => a == b || x.sameValue y
  | float x _, v => match v.integer? with
    | some n => x.equalsInt n
    | Option.none => false
  | v, float y _ => match v.integer? with
    | some n => y.equalsInt n
    | Option.none => false
  | none, none => true
  | text s, text t => s == t
  | bytes a, bytes b => a == b
  | tuple xs a, tuple ys b => a == b || sameAll xs ys
  | object a, object b => a == b
  | constructor a, constructor b => a == b
  | storageClass m d, storageClass n e => m == n && d == e
  | scalarType m d, scalarType n e => m == n && d == e
  | persistent a, persistent b => a == b
  | tensor a, tensor b => a == b
  | v, w => match v.integer?, w.integer? with
    | some m, some n => m == n
    | _, _ => false

def sameAll : List Value → List Value → Bool
  | [], [] => true
  | x :: xs, y :: ys => same x y && sameAll xs ys
  | _, _ => false

end

/-- Equality of keys. -/
instance : BEq Value := ⟨same⟩

end Value

/-- What a heap cell holds.  An ordered mapping can carry attributes besides its entries. -/
inductive Object
  | list (items : List Value)
  | dict (entries : Table Value Value)
  | ordered (entries : Table Value Value) (attributes : Table Text Value)
  deriving Inhabited

structure Heap where
  objects : Array Object := #[]
  deriving Inhabited

namespace Heap

def get? (h : Heap) (id : Nat) : Option Object := h.objects[id]?

def set (h : Heap) (id : Nat) (o : Object) : Heap := ⟨h.objects.setIfInBounds id o⟩

def allocate (h : Heap) (o : Object) : Nat × Heap := (h.objects.size, ⟨h.objects.push o⟩)

/-- The name of a value's type. -/
def typeName (h : Heap) : Value → Text
  | .none => "NoneType"
  | .bool _ => "bool"
  | .int _ => "int"
  | .float .. => "float"
  | .text _ => "str"
  | .bytes _ => "bytes"
  | .tuple .. => "tuple"
  | .object id => match h.get? id with
    | some (.dict _) => "dict"
    | some (.ordered ..) => "OrderedDict"
    | _ => "list"
  | .constructor _ => "Global"
  | .storageClass .. => "StorageType"
  | .scalarType .. => "ScalarTag"
  | .persistent _ => "PersistentRef"
  | .tensor _ => "TensorRef"

/-- Whether a value counts as true: zeros and whatever is empty do not. -/
def isTrue (h : Heap) : Value → Bool
  | .none => false
  | .bool b => b
  | .int n => n ≠ 0
  | .float x _ => !x.isZero
  | .text t => !t.isEmpty
  | .bytes b => !b.isEmpty
  | .tuple items _ => !items.isEmpty
  | .object id => match h.get? id with
    | some (.list items) => !items.isEmpty
    | some (.dict entries) => !entries.entries.isEmpty
    | some (.ordered entries _) => !entries.entries.isEmpty
    | Option.none => false
  | _ => true

end Heap

end Checkpoint.Pickle
