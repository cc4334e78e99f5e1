import Checkpoint.Safetensors.Header
import Checkpoint.StateDict
import Checkpoint.Stream
import Checkpoint.Tensor.Limits
/-!
Reading safetensors files.  Tensors are read in the order of the payload; what lies between two of
them is passed over, by seeking where the stream can seek and by reading where it cannot.
-/

namespace Checkpoint.Safetensors

def readPart (size : Nat) : Action Bytes :=
  Effect.describing .readTensors (Stream.read (some size))

/-- How many bytes are left, if the stream can tell. -/
def remaining : Action (Option Int) :=
  Effect.describing .seekTensors do
    if ← Stream.seekable then
      let position ← Stream.tell
      let stop ← Stream.seekFromEnd 0
      Stream.seek position
      return some ((stop : Int) - position)
    else return none

/-- Reads the header and checks it; the stream is left at the start of the payload. -/
def readHeader (config : Config) : Action Header := do
  let start ← readPart Header.lengthSize
  if start.length ≠ Header.lengthSize then
    throw (.malformedHeader (.lengthMissing start.length))
  let length := Bytes.fromLittleEndian start
  if config.maxHeaderSize < length then
    throw (.malformedHeader (.tooLarge length config.maxHeaderSize))
  let bytes ← readPart length
  if bytes.length ≠ length then throw (.malformedHeader (.truncated length bytes.length))
  let payload ← remaining
  Effect.ofExcept (Header.decode bytes payload)

/-- The most bytes that are read at once only to be passed over. -/
def discardLimit : Nat := 1024 * 1024

/-- Reads bytes and forgets them. -/
def discard (count : Nat) : Action Unit :=
  if count = 0 then return
  else do
    let part ← readPart (min count discardLimit)
    if part.length = 0 then throw (.streamFailed .payloadEndsInGap)
    else discard (count - part.length)
termination_by count

/-- Where the payload starts, for streams that can seek. -/
def payloadStart : Action (Option Nat) :=
  Effect.describing .queryTensors do
    if ← Stream.seekable then return some (← Stream.tell) else return none

/-- Goes from one position in the payload to a later one. -/
def advance (base : Option Nat) (position target : Nat) : Action Unit :=
  match base with
  | some base => Effect.describing .seekTensors (Stream.seek (base + target : Nat))
  | none => discard (target - position)

/-- Reads the ranges of entries that come in the order of the payload, from `position` on.  An entry
without elements may have a shape that no tensor has. -/
def readEntries (base : Option Nat) : Nat → List Entry → Action (List (Entry × Bytes))
  | _, [] => return []
  | position, e :: rest => do
    if e.start ≠ position then advance base position e.start
    let data ← readPart e.size
    if data.length ≠ e.size then
      throw (.streamFailed (.payloadEnds e.name e.size data.length))
    if data.isEmpty then Effect.ofExcept (Shape.requireContiguous e.shape)
    return (e, data) :: (← readEntries base e.stop rest)

/-- Adds a tensor over a buffer of its own. -/
def addTensor (state : StateDict) (part : Entry × Bytes) : StateDict :=
  let (e, data) := part
  let (storage, memory) := state.memory.allocate data
  let tensor : Tensor := {
    dtype := e.dtype
    shape := e.shape
    stride := Shape.contiguousStrides e.shape
    offset := 0
    storage }
  { state with tensors := state.tensors ++ [(e.name, tensor)], memory }

/-- The entries that are asked for, in the order of the payload. -/
def Header.selected (h : Header) (keys : Option (List Text)) : List Entry :=
  match keys with
  | none => h.inFileOrder
  | some keys => h.inFileOrder.filter fun e => keys.contains e.name

/-- Loads the tensors with the given names, or all, from a stream at the start of its payload. -/
def loadPayload (h : Header) (keys : Option (List Text)) : Action StateDict := do
  let base ← payloadStart
  let parts ← readEntries base 0 (h.selected keys)
  return parts.foldl addTensor {}

/-- Loads the tensors with the given names, or all, from a stream at its header. -/
def load (config : Config) (keys : Option (List Text)) : Action StateDict := do
  loadPayload (← readHeader config) keys

end Checkpoint.Safetensors
