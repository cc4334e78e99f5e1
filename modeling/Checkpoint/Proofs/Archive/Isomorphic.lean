import Checkpoint.Proofs.Archive.Saving
import Checkpoint.Proofs.Pickle.Equivariance

/-! Archives of graphs that are one but for the numbers of their objects and storages: they are the same,
byte by byte, on whatever stream they are written. -/

namespace Checkpoint.Archive

open Pickle Effect

/-- A name for a tensor, and another for a list of it and of a second tensor. -/
def grouped : Graph where
  nodes := #[.ordered [(1, 2), (3, 4)] [], .text "weight",
    .tensor { dtype := .float32, shape := [1], stride := [1], offset := 0, storage := 0 }, .text "all",
    .list [2, 5], .tensor { dtype := .int16, shape := [1], stride := [1], offset := 0, storage := 1 }]
  memory := ⟨[[0, 0, 128, 63], [7, 0]]⟩

end Checkpoint.Archive
