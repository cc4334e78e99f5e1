import Checkpoint.Pickle.Render
import Checkpoint.Safetensors.Header
import Checkpoint.Stream
import Checkpoint.Tensor.Flat
/-!
Writing safetensors files: the header, then the elements of each tensor in row-major order, in the
order of their names and without gaps.  All checks of names and types come before the first byte.
-/

namespace Checkpoint.Safetensors

open Json (Value)

/-- A name, and what it is found to stand for; only tensors can be written. -/
structure Named where
  name : Pickle.Value
  found : Except Error (Option Tensor)

namespace Named

def ofTensor (name : Text) (t : Tensor) : Named := { name := .text name, found := .ok (some t) }

/-- The name as messages show it. -/
def shown (n : Named) : Text :=
  match n.name with
  | .storageClass name _ =>
    "<class 'torch." ++ (if name = "UntypedStorage" then "storage." else "") ++ name ++ "'>"
  | v => ({} : Pickle.Heap).shown v

/-- The name as the header has it: numbers and the like as the document spells them. -/
def key (n : Named) : Except Error Text :=
  match n.name with
  | .text t => .ok t
  | .none => .ok Json.Value.null.compact
  | .bool b => .ok (Json.Value.bool b).compact
  | .int n => .ok (Json.Value.int n).compact
  | .float x _ => .ok (Json.Value.float x).compact
  | _ => .error (.typeFault .documentKey)

def isReserved (n : Named) : Bool :=
  match n.name with
  | .text t => t == metadataKey
  | _ => false

/-- The tensor that is to be written. -/
def tensor (n : Named) : Except Error Tensor := do
  let content ← n.found
  if n.isReserved then throw (.malformedHeader .reservedName)
  match content with
  | none => throw (.unexpectedStructure (.valueNotTensor n.shown))
  | some t =>
    unless t.isContiguous do throw (.unexpectedStructure (.notContiguous n.shown))
    if t.dtype.tag?.isNone then throw (.unsupportedDType (.noTag t.dtype))
    return t

end Named

/-- Places tensors one after the other, from `start` on; gives each with its name. -/
def layOut : Nat → List (Text × Tensor) → List Entry
  | _, [] => []
  | start, (name, t) :: rest =>
    let stop := start + t.numel * t.dtype.size
    { name, dtype := t.dtype, shape := t.shape, start, stop } :: layOut stop rest

/-- A file that is to be written. -/
structure Plan where
  header : Header
  /-- The tensors in the order of the header's entries. -/
  tensors : List Tensor

/-- Metadata from pairs; of several values for one key the last counts. -/
def metadataOfPairs (pairs : List (Value × Value)) : Except Error (List (Text × Text)) :=
  return (Table.ofList (← textPairs pairs)).entries

/-- Plans a file of values in the given order.  The spelling of the names is settled last. -/
def plan (metadata : Option (List (Text × Text))) (values : List Named) : Except Error Plan := do
  let tensors ← values.mapM Named.tensor
  let names ← values.mapM Named.key
  return { header := { entries := layOut 0 (names.zip tensors), metadata }, tensors }

/-- Writes tensors in turn; says how many bytes they have. -/
def writePayload (memory : Memory) : List Tensor → Action Nat
  | [] => return 0
  | t :: rest => do
    let data ← Effect.ofExcept ((memory.flat t).mapError .tensorFault)
    Stream.write data
    return data.length + (← writePayload memory rest)

/-- Writes a file; says how many bytes it has. -/
def Plan.write (config : Config) (memory : Memory) (p : Plan) : Action Nat := do
  let header ← Effect.ofExcept (p.header.encode config)
  Effect.describing .writeTensors do
    Stream.write header
    return header.length + (← writePayload memory p.tensors)

/-- Writes tensors as a file. -/
def save (config : Config) (memory : Memory) (metadata : Option (List (Value × Value)))
    (tensors : List (Text × Tensor)) : Action Nat := do
  let metadata ← Effect.ofExcept (metadata.mapM metadataOfPairs)
  let sorted := tensors.mergeSort fun a b => Text.le a.1 b.1
  let plan ← Effect.ofExcept (plan metadata (sorted.map fun (name, t) => Named.ofTensor name t))
  plan.write config memory

end Checkpoint.Safetensors
