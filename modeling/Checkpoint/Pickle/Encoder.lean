import Checkpoint.Pickle.Collection
import Checkpoint.Pickle.Instruction
import Checkpoint.Config
import Checkpoint.Stream
/-!
Writing object graphs as streams.  Each object is written once, under the next number of a memo,
and fetched by that number wherever else it occurs.  A tensor is a call of its constructor on a
reference to its storage; storages are numbered in the order of their first use.
-/

namespace Checkpoint.Pickle

/-- What the memo tells objects apart by. -/
inductive Identity
  | node (id : Nat)
  /-- Texts of at most one character below U+0100 are one object wherever they occur. -/
  | short (t : Text)
  | storageWord
  | locationWord
  /-- The key of a storage, which no other text is one object with. -/
  | storageKey (n : Nat)
  | global (module name : Text)
  | temporary (n : Nat)
  deriving DecidableEq

namespace Identity

def isShort (t : Text) : Bool :=
  match t.points with
  | [] => true
  | [c] => c.val < 0x100
  | _ => false

/-- The identity of a text that would otherwise be `own`. -/
def ofText (t : Text) (own : Identity) : Identity := if isShort t then .short t else own

end Identity

/-- The storages of a stream: for each the key, the place in memory, and the type of its first
use. -/
structure StorageUse where
  key : Text
  storage : Nat
  dtype : DType
  deriving DecidableEq

/-- An instruction that has been written, with the object that it stores or fetches, if it does. -/
structure Written where
  instruction : Instruction
  object : Option Identity := none
  deriving DecidableEq

structure Encoder where
  /-- The instructions written so far, the last one first. -/
  output : List Written := []
  memo : Table Identity Nat := {}
  storages : List StorageUse := []
  temporaries : Nat := 0

namespace Encoder

abbrev Encoding := Effect Encoder

def write (w : Written) : Encoding Unit :=
  modify fun e => { e with output := w :: e.output }

def emit (i : Instruction) : Encoding Unit := write { instruction := i }

/-- One of two instructions on the entry under a number: the one with a byte for the number, or else
the one with four. -/
def memoInstruction (short : UInt8 → Instruction) (long : UInt32 → Instruction) (n : Int) :
    Except Error Instruction :=
  if n < 0 then .error (.rangeFault .byte)
  else if n < 256 then .ok (short (UInt8.ofNat n.toNat))
  else if n < 0x100000000 then .ok (long (UInt32.ofNat n.toNat))
  else .error .fieldOverflow

/-- The instruction that stores the top of the stack under a number. -/
def putInstruction (n : Int) : Except Error Instruction := memoInstruction .put .longPut n

/-- The instruction that fetches what is stored under a number. -/
def getInstruction (n : Int) : Except Error Instruction := memoInstruction .get .longGet n

def emitChecked (i : Except Error Instruction) : Encoding Unit := do
  emit (← Effect.ofExcept i)

/-- An instruction that stores or fetches an object. -/
def emitFor (identity : Identity) (i : Except Error Instruction) : Encoding Unit := do
  write { instruction := ← Effect.ofExcept i, object := some identity }

/-- Stores what has just been written under the number of entries. -/
def memoize (identity : Identity) : Encoding Unit := do
  let n := (← get).memo.size
  emitFor identity (putInstruction n)
  modify fun e => { e with memo := e.memo.insert identity n }

/-- An identity that no other object has. -/
def fresh : Encoding Identity := do
  let n := (← get).temporaries
  modify ({ · with temporaries := n + 1 })
  return .temporary n

/-- Stores what has just been written as an object that occurs nowhere else. -/
def memoizeFresh : Encoding Unit := do memoize (← fresh)

/-- Fetches an object that has been written, or writes it. -/
def once (identity : Identity) (write : Encoding Unit) : Encoding Unit := do
  match (← get).memo.get? identity with
  | some n => emitFor identity (getInstruction n)
  | none => write

/-- A text whose length fits its field of four bytes. -/
def textInstruction (t : Text) : Except Error Instruction :=
  if t.utf8.length < 0x100000000 then .ok (.unicode t) else .error .fieldOverflow

def saveText (identity : Identity) (t : Text) : Encoding Unit :=
  once identity do
    emitChecked (textInstruction t)
    memoize identity

def saveGlobal (module name : Text) : Encoding Unit :=
  once (.global module name) do
    emit (.global module name)
    memoize (.global module name)

/-- The narrowest instruction that holds an integer. -/
def intInstruction (n : Int) : Except Error Instruction :=
  if 0 ≤ n ∧ n ≤ 0xff then .ok (.int1 (UInt8.ofNat n.toNat))
  else if 0 ≤ n ∧ n ≤ 0xffff then .ok (.int2 (UInt16.ofNat n.toNat))
  else if -0x80000000 ≤ n ∧ n ≤ 0x7fffffff then .ok (.int4 (Int32.ofInt n))
  else
    let width := Bytes.signedWidth n
    if 255 < width then .error (.unexpectedStructure (.integerWidth width))
    else .ok (.long n)

def saveInt (n : Int) : Encoding Unit := emitChecked (intInstruction n)

/-- The instruction that makes a tuple of so many items. -/
def tupleInstruction : Nat → Instruction
  | 1 => .tuple1
  | 2 => .tuple2
  | 3 => .tuple3
  | _ => .tuple

/-- A tuple: up to three items have an instruction of their own, more need a mark. -/
def saveTuple (identity : Encoding Identity) (items : List (Encoding Unit)) : Encoding Unit := do
  match items with
  | [] => emit .emptyTuple
  | _ =>
    if 3 < items.length then emit .mark
    items.forM id
    emit (tupleInstruction items.length)
    memoize (← identity)

/-- Cuts items into runs of `size`, the last of which may be shorter. -/
def batches (size : Nat) (items : List α) : List (List α) :=
  if items.isEmpty then []
  else if size = 0 then [items]
  else items.take size :: batches size (items.drop size)
termination_by items.length
decreasing_by
  rename_i h _
  simp only [List.isEmpty_iff] at h
  have := List.length_pos_iff.2 h
  simp; omega

/-- The greatest number of items that a batch can be asked to hold. -/
def batchLimit : Nat := 0x7fffffffffffffff

/-- Adds items to the container on top: a single one by one instruction, several by another above a
mark. -/
def saveBatch (single several : Instruction) (batch : List (Encoding Unit)) : Encoding Unit := do
  match batch with
  | [item] =>
    item
    emit single
  | _ =>
    emit .mark
    batch.forM id
    emit several

/-- Adds items to the container on top, in batches. -/
def saveItems (config : Config) (single several : Instruction) (items : List (Encoding Unit)) :
    Encoding Unit := do
  if batchLimit < config.batchSize then throw (.rangeFault .batchSize)
  (batches config.batchSize items).forM (saveBatch single several)

def orderedDict : Encoding Unit := do
  saveGlobal Constructor.orderedDict.module Constructor.orderedDict.name
  emit .emptyTuple
  emit .reduce

/-- Registers the use of a storage as a type; a storage that is not empty keeps one type. -/
def useStorage (memory : Memory) (t : Tensor) : Encoding Nat := do
  let e : Encoder ← get
  match e.storages.findIdx? (·.storage == t.storage) with
  | some n =>
    let first := (e.storages[n]?.map StorageUse.dtype).getD t.dtype
    if first ≠ t.dtype ∧ (memory.buffer t.storage).length ≠ 0 then
      throw (.unexpectedStructure .mixedTypes)
    return n
  | none =>
    let n := e.storages.length
    let use : StorageUse := { key := Text.ofNat n, storage := t.storage, dtype := t.dtype }
    set { e with storages := e.storages ++ [use] }
    return n

def storageModule : Text := "torch"

/-- The word that begins every reference to a storage, and the one place where storages are. -/
def storageWord : Text := "storage"
def locationWord : Text := "cpu"

/-- A reference to a tensor's storage. -/
def saveStorage (memory : Memory) (t : Tensor) (storageClass : Text) : Encoding Unit := do
  let n ← useStorage memory t
  let count := (memory.buffer t.storage).length / t.dtype.size
  saveTuple fresh [
    saveText .storageWord storageWord,
    saveGlobal storageModule storageClass,
    saveText (.storageKey n) (Text.ofNat n),
    saveText .locationWord locationWord,
    saveInt count]
  emit .persistentId

def saveSizes (sizes : List Nat) : Encoding Unit :=
  saveTuple fresh (sizes.map fun (n : Nat) => saveInt n)

/-- What a tensor's constructor is called on. -/
def tensorArguments (memory : Memory) (t : Tensor) (storageClass : Text) : List (Encoding Unit) := [
  saveStorage memory t storageClass,
  saveInt t.offset,
  saveSizes t.shape,
  saveSizes t.stride,
  emit (.bool false),
  (do orderedDict; memoizeFresh)]

def saveTensor (memory : Memory) (identity : Identity) (t : Tensor) : Encoding Unit := do
  match t.dtype.storageClass? with
  | none => throw (.unsupportedDType (.noStorageClass t.dtype))
  | some storageClass =>
    saveGlobal Constructor.rebuildTensorV2.module Constructor.rebuildTensorV2.name
    saveTuple fresh (tensorArguments memory t storageClass)
    emit .reduce
    memoize identity

end Encoder

namespace Graph

/-- The identity of a node. -/
def identity (g : Graph) (id : Nat) : Identity :=
  match g.node id with
  | .text t => Identity.ofText t (.node id)
  | .storageClass name => .global Encoder.storageModule name
  | _ => .node id

end Graph

namespace Encoder

/-- Writes an object, with at most `fuel` objects around one another. -/
def save (config : Config) (g : Graph) : Nat → Nat → Encoding Unit
  | 0, _ => throw .nestingTooDeep
  | fuel + 1, id => once (g.identity id) do
    let entry : Nat × Nat → Encoding Unit := fun (key, value) => do
      save config g fuel key
      save config g fuel value
    let cannot (type : Text) : Encoding Unit := throw (.unexpectedStructure (.cannotEncode type))
    match g.node id with
    | .none => emit .none
    | .bool b => emit (.bool b)
    | .int n => saveInt n
    | .float x => emit (.float x)
    | .text t => saveText (g.identity id) t
    | .tuple items => saveTuple (pure (.node id)) (items.map (save config g fuel))
    | .list items => do
      emit .emptyList
      memoize (.node id)
      saveItems config .append .appends (items.map (save config g fuel))
    | .dict entries => do
      emit .emptyDict
      memoize (.node id)
      saveItems config .setItem .setItems (entries.map entry)
    | .ordered entries attributes => do
      orderedDict
      memoize (.node id)
      saveItems config .setItem .setItems (entries.map entry)
      unless attributes.isEmpty do
        emit .emptyDict
        memoizeFresh
        saveItems config .setItem .setItems (attributes.map fun (name, value) => do
          saveText (Identity.ofText name (← fresh)) name
          save config g fuel value)
        emit .build
    | .tensor t => saveTensor g.memory (.node id) t
    | .storageClass name => match DType.ofStorageClass? name with
      | some _ => saveGlobal storageModule name
      | none => cannot (if name = "Tensor" then "_TensorMeta" else "type")
    | .mapping type _ _ => cannot type
    | .bytes _ => cannot "bytes"
    | .emptySet => cannot "set"

end Encoder

namespace Graph

/-- Enough for any graph whose tuples come after the objects they hold: on the way down, an object
that is not yet in the memo is met, or else a smaller tuple. -/
def depthLimit (g : Graph) : Nat := (g.nodes.size + 2) * (g.nodes.size + 2)

/-- The ordered mapping that a graph is written as: a mapping of another type gives its entries, and its
metadata unless that is absent or nothing; any other collection gives those that its pairs make. -/
def asOrdered (g : Graph) (id : Nat) : Except Error (Nat × Graph) :=
  let metadata (attributes : List (Text × Nat)) := attributes.filter fun (name, value) =>
    name == metadataName && match g.node value with
      | .none => false
      | _ => true
  match g.node id with
  | .ordered .. => .ok (id, g)
  | .dict entries => .ok (g.add (.ordered entries []))
  | .mapping _ entries attributes => .ok (g.add (.ordered entries (metadata attributes)))
  | _ => do
    let (entries, g) ← g.entriesOfPairs id
    return g.add (.ordered entries [])

/-- A written graph: the instructions in order, how many objects have a number, and the storages
that are referred to. -/
structure Dump where
  written : List Written
  memoSize : Nat
  storages : List StorageUse

def Dump.instructions (d : Dump) : List Instruction := d.written.map Written.instruction

def Dump.bytes (d : Dump) : Bytes := d.instructions.flatMap Instruction.encode

/-- The version of the stream format that is written. -/
def protocol : UInt8 := 2

/-- Writes an object as a whole stream. -/
def stream (config : Config) (g : Graph) (id : Nat) : Encoder.Encoding Unit := do
  Encoder.emit (.proto protocol)
  Encoder.save config g g.depthLimit id
  Encoder.emit .stop

/-- Writes the mapping at `id` as a stream. -/
def dump (config : Config) (g : Graph) (id : Nat) : Except Error Dump := do
  let (top, g) ← g.asOrdered id
  let (result, e) := (g.stream config top).perform {}
  result.map fun _ =>
    { written := e.output.reverse, memoSize := e.memo.size, storages := e.storages }

end Graph

end Checkpoint.Pickle
