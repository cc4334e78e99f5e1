import Checkpoint.Archive.Load
import Checkpoint.Archive.Save
import Checkpoint.Module
import Checkpoint.Reconcile
import Checkpoint.Safetensors.Reader
import Checkpoint.Safetensors.Writer
import Checkpoint.World
/-!
Saving and loading modules, and loading plain states, in both formats.  Archives need a stream that
can seek: for any other stream the archive is made, or kept, in memory as a whole.
-/

namespace Checkpoint

/-! ### Archives -/

namespace Archive

/-- Saves a graph onto any stream. -/
def saveAnywhere (config : Config) (g : Pickle.Graph) (id : Nat) : Action Unit := do
  if ← Stream.canSeek then discard (save config g id)
  else
    let (result, buffer) := (save config g id).perform {}
    let _ ← Effect.ofExcept result
    Effect.describing .writeArchive (Stream.write buffer.content)

/-- What a load brings for a target: the tensors that the target has too, and all names. -/
structure Incoming where
  state : StateDict
  names : List Text

/-- Reads what a target needs.  The names are compared before any storage is read. -/
def readFor (config : Config) (policy : Policy) (target : List Text) : Action Incoming := do
  let (decoded, arena) ← (← Reader.openArchive).decode config
  let names := decoded.refs.map Prod.fst
  if policy.strict then Effect.ofExcept (checkKeys names target policy.skip)
  let wanted := decoded.refs.filter fun (name, _) =>
    !policy.skip.contains name && target.contains name
  let (tensors, arena) ← arena.materializeAll wanted
  return { state := { tensors, memory := arena.memory }, names }

/-- Loads an archive into live tensors. -/
def loadInto (config : Config) (policy : Policy) (target : List (Text × Tensor)) :
    Effect Bench Merge := do
  let targetNames := target.map Prod.fst
  let incoming ← Bench.onStream (readFor config policy targetNames)
  Bench.onMemory (mergeState policy incoming.state target
    (incoming.names.filter fun name => !targetNames.contains name))

end Archive

/-! ### Safetensors -/

namespace Safetensors

/-- Reads what a target needs: the names are compared before any tensor is read.  Says which
other names there are. -/
def readFor (config : Config) (policy : Policy) (target : List Text) :
    Action (StateDict × List Text) := do
  let header ← readHeader config
  let names := header.names.filter fun name => !policy.skip.contains name
  if policy.strict then Effect.ofExcept (checkKeys names target policy.skip)
  let state ← loadPayload header (some (names.filter target.contains))
  return (state, names.filter fun name => !target.contains name)

end Safetensors

/-! ### Modules -/

inductive FileFormat
  | archive
  | safetensors

namespace Module

def saveArchive (config : Config) (m : Module) (skip : List Text) (target : Endpoint) :
    Effect World Unit := do
  let (id, g) := m.graph (← get).memory skip
  World.writing target (Bench.onStream (Archive.saveAnywhere config g id))

def loadArchive (config : Config) (m : Module) (policy : Policy) (source : Endpoint) :
    Effect World Merge :=
  World.reading source (Bench.seekably (Archive.loadInto config policy m.entries))

def saveSafetensors (config : Config) (m : Module) (skip : List Text)
    (metadata : Option (List (Json.Value × Json.Value))) (target : Endpoint) :
    Effect World Unit := do
  let memory := (← get).memory
  World.writing target
    (Bench.onStream (discard (Safetensors.save config memory metadata (m.saved skip))))

/-- The tensors are merged when the source is closed. -/
def loadSafetensors (config : Config) (m : Module) (policy : Policy) (source : Endpoint) :
    Effect World Merge := do
  let target := m.entries
  let (state, unread) ← World.reading source
    (Bench.onStream (Safetensors.readFor config policy (target.map Prod.fst)))
  World.onMemory (mergeState policy state target unread)

/-- Saves a module in a format; an archive has no room for further metadata. -/
def saveAs (format : FileFormat) (config : Config) (m : Module) (skip : List Text)
    (metadata : Option (List (Json.Value × Json.Value))) (target : Endpoint) : Effect World Unit :=
  match format with
  | .archive => m.saveArchive config skip target
  | .safetensors => m.saveSafetensors config skip metadata target

def loadAs (format : FileFormat) (config : Config) (m : Module) (policy : Policy) (source : Endpoint) :
    Effect World Merge :=
  match format with
  | .archive => m.loadArchive config policy source
  | .safetensors => m.loadSafetensors config policy source

end Module

/-- The world, and a report of what loads have copied. -/
structure Recorded where
  world : World
  report : Table Text Bool

/-- Enters what a load has done into the report, which a load that fails leaves alone. -/
def Recorded.entering (load : Effect World Merge) : Effect Recorded Merge := do
  let merge ← Effect.focus world (fun w r => { r with world := w }) load
  modify fun r => { r with report := merge.fill r.report }
  return merge

namespace StateDict

def loadArchive (config : Config) (source : Endpoint) : Effect World StateDict :=
  World.reading source (Bench.seekably (Bench.onStream (Archive.loadPlain config)))

def loadSafetensors (config : Config) (source : Endpoint) : Effect World StateDict :=
  World.reading source (Bench.onStream (Safetensors.load config none))

end StateDict

end Checkpoint
