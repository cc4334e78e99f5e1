import Checkpoint.Pickle.Machine
import Checkpoint.StateDict
/-!
Loading archives.  The object stream is decoded and checked as a whole before any storage is read;
tensors that share a storage in the archive share a buffer afterwards.
-/

namespace Checkpoint.Archive

open Pickle

/-- A decoded object stream: views by name, and the metadata attribute of the mapping. -/
structure Decoded where
  refs : List (Text × TensorRef)
  metadata : Option Described := none

/-- The entries of a mapping as named views, each of which has to fit its storage. -/
def checkEntries (h : Heap) (arena : Arena) :
    List (Value × Value) → Except Error (List (Text × TensorRef))
  | [] => .ok []
  | (.text name, .tensor t) :: rest => do
    arena.check t
    return (name, t) :: (← checkEntries h arena rest)
  | (.text name, _) :: _ => .error (.unexpectedStructure (.notATensor name.quoted))
  | (key, _) :: _ => .error (.unexpectedStructure (.nameType (h.shown key)))

/-- A value as a flat mapping of names to views. -/
def Decoded.ofValue (h : Heap) (arena : Arena) (v : Value) : Except Error Decoded :=
  let wrong : Except Error Decoded := .error (.unexpectedStructure (.topLevel (h.typeName v)))
  match v with
  | .object id => match h.get? id with
    | some (.dict entries) => do
      return { refs := ← checkEntries h arena entries.entries }
    | some (.ordered entries attributes) => do
      let metadata := (attributes.get? metadataName).map fun value => { heap := h, value }
      return { refs := ← checkEntries h arena entries.entries, metadata }
    | _ => wrong
  | _ => wrong

/-- Decodes the object stream of an open archive, registering its storages. -/
def Reader.decode (config : Config) (r : Reader) : Action (Decoded × Arena) := do
  let bytes ← r.readRecord objectRecord
  let (result, machine) := Machine.load config (Arena.ofReader r) bytes
  let (value, _) ← Effect.ofExcept result
  let decoded ← Effect.ofExcept (Decoded.ofValue machine.heap machine.arena value)
  return (decoded, machine.arena)

/-- Decodes the archive on a stream without reading any storage. -/
def decode (config : Config) : Action Decoded := do
  return (← (← Reader.openArchive).decode config).1

/-- The tensors of an archive, and the arena with the buffers that they view. -/
def loadTensors (config : Config) : Action (Decoded × List (Text × Tensor) × Arena) := do
  let (decoded, arena) ← (← Reader.openArchive).decode config
  let (tensors, arena) ← arena.materializeAll decoded.refs
  return (decoded, tensors, arena)

/-- Metadata other than the value that stands for its absence. -/
def Decoded.givenMetadata (d : Decoded) : Option Described :=
  d.metadata.filter fun m => match m.value with
    | .none => false
    | _ => true

/-- Loads an archive; the metadata stays with the tensors. -/
def load (config : Config) : Action StateDict := do
  let (decoded, tensors, arena) ← loadTensors config
  return { tensors, memory := arena.memory, metadata := decoded.givenMetadata }

/-- Loads an archive without its metadata. -/
def loadPlain (config : Config) : Action StateDict := do
  let (_, tensors, arena) ← loadTensors config
  return { tensors, memory := arena.memory }

end Checkpoint.Archive
