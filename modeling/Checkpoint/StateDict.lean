import Checkpoint.Tensor
import Checkpoint.Pickle.Value
/-!
State dictionaries: named tensors over the buffers that they share, with possibly a value that
describes them.
-/

namespace Checkpoint

/-- A value together with the heap that its objects live on. -/
structure Described where
  heap : Pickle.Heap
  value : Pickle.Value

structure StateDict where
  tensors : List (Text × Tensor) := []
  memory : Memory := {}
  metadata : Option Described := none

namespace StateDict

def names (s : StateDict) : List Text := s.tensors.map Prod.fst

end StateDict

end Checkpoint
