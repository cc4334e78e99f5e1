import Checkpoint.Disk
import Checkpoint.Stream
import Checkpoint.Tensor
/-!
Where states are saved to and loaded from: files by path, and open streams by name.  A file is
opened and closed by the operation; a stream is closed after it unless it is to be left open.
-/

namespace Checkpoint

inductive Endpoint
  | path (path : Text)
  | stream (name : Text) (leaveOpen : Bool)
  deriving DecidableEq

/-- A stream, and the memory of the live tensors. -/
structure Bench where
  stream : Stream
  memory : Memory

namespace Bench

def onStream (action : Action α) : Effect Bench α :=
  Effect.focus stream (fun s b => { b with stream := s }) action

def onMemory (action : Effect Memory α) : Effect Bench α :=
  Effect.focus memory (fun m b => { b with memory := m }) action

/-- Closes the stream afterwards unless it is to be left open. -/
def closing (leaveOpen : Bool) (action : Effect Bench α) : Effect Bench α :=
  if leaveOpen then action else Effect.andFinally action (onStream Stream.close)

/-- Works on a stream that holds these bytes in place of the stream. -/
def instead (bytes : Bytes) (action : Effect Bench α) : Effect Bench α :=
  Effect.focus (fun b => { b with stream := Stream.ofBytes bytes })
    (fun after b => { b with memory := after.memory }) action

/-- Works on the stream if it can seek, else on all that can be read from it. -/
def seekably (action : Effect Bench α) : Effect Bench α := do
  if ← onStream Stream.canSeek then action
  else instead (← onStream (Stream.read none)) action

end Bench

structure World where
  disk : Disk := {}
  memory : Memory := {}
  streams : Table Text Stream := {}

namespace World

def onMemory (action : Effect Memory α) : Effect World α :=
  Effect.focus memory (fun m w => { w with memory := m }) action

def stream (w : World) (name : Text) : Stream := (w.streams.get? name).getD {}

/-- What a file or a stream holds; a closed stream still holds it. -/
def content (w : World) : Endpoint → Except Error Bytes
  | .path path => (w.disk.content (Path.ofText path)).mapError .rawPath
  | .stream name _ => .ok (w.stream name).content

/-- Puts a file at a path. -/
def put (path : Text) (content : Bytes) : Effect World Unit := do
  let place ← Effect.ofExcept (((← get).disk.locate (Path.ofText path)).mapError .rawPath)
  modify fun w => { w with disk := w.disk.store place content }

/-- Moves a stream to a position, without a call on it. -/
def place (w : World) (name : Text) (position : Nat) : World :=
  { w with streams := w.streams.insert name { w.stream name with position } }

/-- Works on an open stream. -/
def withStream (name : Text) (leaveOpen : Bool) (action : Effect Bench α) : Effect World α :=
  Effect.focus (fun w => { stream := w.stream name, memory := w.memory })
    (fun b w => { w with memory := b.memory, streams := w.streams.insert name b.stream })
    (Bench.closing leaveOpen action)

/-- Works on the content of a file. -/
def withFile (content : Bytes) (action : Effect Bench α) : Effect World α :=
  Effect.focus (fun w => { stream := { content, isFile := true }, memory := w.memory })
    (fun b w => { w with memory := b.memory }) action

/-- Works on a file that is empty at first, and keeps what has been written even on a failure. -/
def withNewFile (place : Place) (action : Effect Bench α) : Effect World α :=
  Effect.focus (fun w => { stream := {}, memory := w.memory })
    (fun b w => { w with memory := b.memory, disk := w.disk.store place b.stream.content }) action

def reading (source : Endpoint) (action : Effect Bench α) : Effect World α := do
  match source with
  | .path path => withFile (← Effect.ofExcept ((← get).disk.read path)) action
  | .stream name leaveOpen => withStream name leaveOpen action

def writing (target : Endpoint) (action : Effect Bench α) : Effect World α := do
  match target with
  | .path path => withNewFile (← Effect.ofExcept ((← get).disk.writable path)) action
  | .stream name leaveOpen => withStream name leaveOpen action

end World

end Checkpoint
