import Checkpoint.Archive.Arena
import Checkpoint.Pickle.Render
import Checkpoint.Text.Identifier
/-!
The names that a stream may refer to, and the constructors that it may call.  A constructor checks
the number of its arguments, then what they are, and builds a tensor reference or a mapping.
-/

namespace Checkpoint.Pickle

/-- What a global name stands for; there are no other names. -/
def findGlobal (module name : Text) : Except ProtocolError Value :=
  match Constructor.all.find? fun c => c.module == module && c.name == name with
  | some c => .ok (.constructor c)
  | none =>
    if module = "torch" then
      match DType.ofStorageClass? name, DType.ofScalarName? name with
      | some dtype, _ => .ok (.storageClass name dtype)
      | none, some dtype => .ok (.scalarType name dtype)
      | none, none => .error (.globalName module name)
    else .error (.globalName module name)

namespace Heap

/-- The integers of a list or tuple, if it holds nothing else. -/
def intSequence? (h : Heap) (v : Value) : Option (List Int) :=
  let ints (items : List Value) : Option (List Int) := items.mapM fun
    | .int n => some n
    | _ => none
  match v with
  | .tuple items _ => ints items
  | .object id => match h.get? id with
    | some (.list items) => ints items
    | _ => none
  | _ => none

def intSequence (h : Heap) (field : TensorField) (v : Value) : Except Error (List Int) :=
  match h.intSequence? v with
  | some ns => .ok ns
  | none => .error (.unexpectedStructure (.tensorSequence field (h.shown v)))

/-- A key and a value, from a list or tuple of two. -/
def pair? (h : Heap) (v : Value) : Option (Value × Value) :=
  match v with
  | .tuple [key, value] _ => some (key, value)
  | .object id => match h.get? id with
    | some (.list [key, value]) => some (key, value)
    | _ => none
  | _ => none

end Heap

/-- Enters items in turn, until one cannot be a key: the table so far, and whether all went in. -/
def enterAll (entries : Table Value Value) : List (Value × Value) → Table Value Value × Bool
  | [] => (entries, true)
  | (key, value) :: rest =>
    if key.hashable then enterAll (entries.insert key value) rest else (entries, false)

namespace Constructor

def parameters : Constructor → List String
  | orderedDict => []
  | rebuildTensor => ["storage", "storage_offset", "size", "stride"]
  | rebuildTensorV2 =>
    ["storage", "storage_offset", "size", "stride", "requires_grad", "backward_hooks", "metadata"]
  | rebuildParameter => ["data", "requires_grad", "backward_hooks"]

/-- How many arguments have to be given. -/
def required : Constructor → Nat
  | rebuildTensorV2 => 6
  | c => c.parameters.length

/-- What is wrong with the number of arguments, if anything. -/
def arity? (c : Constructor) (given : Nat) : Option Arity :=
  if given < c.required then some (.missing ((c.parameters.take c.required).drop given))
  else if c.parameters.length < given then some (.excess c.required c.parameters.length given)
  else none

def unexpected (cause : StructureError) : Except Error α := .error (.unexpectedStructure cause)
def unsupported (cause : ProtocolError) : Except Error α := .error (.unsupportedProtocol cause)

/-- The reference that the arguments of a tensor describe. -/
def tensorRef (h : Heap) (storage offset size stride requiresGrad : Value) :
    Except Error TensorRef :=
  match storage with
  | .persistent r => match offset with
    | .int offset => match requiresGrad with
      | .bool requiresGrad => do
        let shape ← h.intSequence .size size
        let stride ← h.intSequence .stride stride
        return { dtype := r.dtype, shape, stride, storageKey := r.key, offset, requiresGrad }
      | v => unexpected (.requiresGrad (h.shown v))
    | v => unexpected (.tensorOffset (h.shown v))
  | v => unexpected (.tensorStorage (h.shown v))

/-- A tensor without hooks and without metadata. -/
def buildTensor (h : Heap) (storage offset size stride requiresGrad hooks metadata : Value) :
    Except Error (Value × Heap) :=
  if h.isTrue hooks then unsupported .tensorHooks
  else if h.isTrue metadata then unsupported (.tensorMetadata (h.shown metadata))
  else do
    let t ← tensorRef h storage offset size stride requiresGrad
    return (.tensor t, h)

/-- An ordered mapping: empty, or from one list of pairs. -/
def buildOrdered (h : Heap) (arguments : List Value) (birth : Nat) : Except Error (Value × Heap) :=
  let refuse : Except Error (Value × Heap) :=
    unsupported (.orderedArguments (h.shown (.tuple arguments birth)))
  let build (entries : Table Value Value) : Value × Heap :=
    let (id, h) := h.allocate (.ordered entries {})
    (.object id, h)
  match arguments with
  | [] => .ok (build {})
  | [.object id] => match h.get? id with
    | some (.list items) => match items.mapM h.pair? with
      | some pairs => match enterAll {} pairs with
        | (entries, true) => .ok (build entries)
        | (_, false) => unsupported .unhashableOrderedKey
      | none => refuse
    | _ => refuse
  | _ => refuse

/-- Calls a constructor.  The tuple of arguments is a new one, made at offset `birth`. -/
def call (c : Constructor) (h : Heap) (arguments : List Value) (birth : Nat) :
    Except Error (Value × Heap) :=
  match c, arguments with
  | orderedDict, arguments => buildOrdered h arguments birth
  | rebuildTensor, [storage, offset, size, stride] => do
    let t ← tensorRef h storage offset size stride (.bool false)
    return (.tensor t, h)
  | rebuildTensorV2, storage :: offset :: size :: stride :: requiresGrad :: hooks :: rest =>
    match rest with
    | [] => buildTensor h storage offset size stride requiresGrad hooks .none
    | [metadata] => buildTensor h storage offset size stride requiresGrad hooks metadata
    | _ => unsupported (.arguments c.module c.name (.excess 6 7 arguments.length))
  | rebuildParameter, [data, requiresGrad, hooks] => match data with
    | .tensor t =>
      if h.isTrue hooks then unsupported .parameterHooks
      else match requiresGrad with
        | .bool requiresGrad => .ok (.tensor { t with requiresGrad }, h)
        | v => unexpected (.requiresGrad (h.shown v))
    | v => unexpected (.parameterData (h.shown v))
  | c, arguments => match c.arity? arguments.length with
    | some arity => unsupported (.arguments c.module c.name arity)
    | none => unsupported (.arguments c.module c.name (.missing []))

end Constructor

/-- The names that every ordered mapping already has. -/
def reservedAttributes : List Text := [
  "clear", "copy", "fromkeys", "get", "items", "keys", "move_to_end", "mro", "pop", "popitem",
  "setdefault", "update", "values"]

/-- Whether a stream may set an attribute of this name. -/
def isAttributeName (name : Text) : Bool :=
  name.isIdentifier && !name.startsWith "__" && !reservedAttributes.contains name

end Checkpoint.Pickle
