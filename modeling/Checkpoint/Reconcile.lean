import Checkpoint.Error
import Checkpoint.StateDict
import Checkpoint.Stream
import Checkpoint.Tensor.Copy
/-!
Merging loaded tensors into live ones.  Under the strict policy the names on both sides have to be
the same; otherwise those that both sides have are copied, in the order of the loaded ones.  Names
that are skipped count on neither side.
-/

namespace Checkpoint

structure Policy where
  strict : Bool := true
  skip : List Text := []

/-- The names that only one of two sides has, each list in the order of its side. -/
structure KeyDifference where
  missing : List Text
  unexpected : List Text
  deriving DecidableEq

/-- Compares the names outside `skip` that were loaded with those that are wanted. -/
def diffKeys (loaded target skip : List Text) : KeyDifference :=
  let loaded := loaded.filter fun name => !skip.contains name
  let target := target.filter fun name => !skip.contains name
  { missing := target.filter fun name => !loaded.contains name
    unexpected := loaded.filter fun name => !target.contains name }

namespace KeyDifference

def isEmpty (d : KeyDifference) : Bool := d.missing.isEmpty && d.unexpected.isEmpty

/-- Fails with both lists sorted unless both are empty. -/
def require (d : KeyDifference) : Except Error Unit :=
  if d.isEmpty then .ok ()
  else .error (.stateMismatch (Text.sort d.missing) (Text.sort d.unexpected))

/-- Counts further names as unexpected, each once. -/
def addUnexpected (d : KeyDifference) (names : List Text) : KeyDifference :=
  { d with
    unexpected := names.foldl
      (fun found name => if found.contains name then found else found ++ [name]) d.unexpected }

end KeyDifference

/-- Fails unless the names outside `skip` are the same on both sides. -/
def checkKeys (loaded target skip : List Text) : Except Error Unit :=
  (diffKeys loaded target skip).require

/-- What a merge did. -/
structure Merge where
  copied : List Text
  missing : List Text
  unexpected : List Text
  deriving DecidableEq

namespace Merge

/-- For each name that was loaded, whether it was copied. -/
def report (m : Merge) : List (Text × Bool) :=
  m.copied.map (·, true) ++ m.unexpected.map (·, false)

/-- Enters the report into an earlier one. -/
def fill (m : Merge) (earlier : Table Text Bool) : Table Text Bool := earlier.insertAll m.report

end Merge

/-- Copies one tensor into another of the same shape. -/
def copyTensor (name : Text) (source target : Tensor) : Effect Memory Unit := do
  if source.shape ≠ target.shape then throw (.shapeMismatch name source.shape target.shape)
  set (← Effect.ofExcept (((← get).copy source target).mapError .tensorFault))

/-- Copies every tensor that the target has too, in order; says which.  A copy that is refused ends
it, with the copies made so far in place. -/
def copyShared (target : Table Text Tensor) : List (Text × Tensor) → Effect Memory (List Text)
  | [] => return []
  | (name, source) :: rest => do
    match target.get? name with
    | none => copyShared target rest
    | some live =>
      copyTensor name source live
      return name :: (← copyShared target rest)

/-- Merges loaded tensors into live ones over the same memory.  `unread` names what the source has
besides the loaded tensors. -/
def reconcile (policy : Policy) (loaded target : List (Text × Tensor)) (unread : List Text) :
    Effect Memory Merge := do
  let targetNames := target.map Prod.fst
  let loaded := loaded.filter fun (name, _) => !policy.skip.contains name
  let unread := unread.filter fun name =>
    !policy.skip.contains name && !targetNames.contains name
  let difference :=
    (diffKeys (loaded.map Prod.fst) targetNames policy.skip).addUnexpected unread
  if policy.strict then Effect.ofExcept difference.require
  let copied ← copyShared ⟨target⟩ loaded
  return { copied, missing := difference.missing, unexpected := difference.unexpected }

/-- The same tensor over a memory that begins with `count` other buffers. -/
def Tensor.shift (count : Nat) (t : Tensor) : Tensor := { t with storage := count + t.storage }

/-- Merges a state dictionary into live tensors; its buffers are at hand only meanwhile. -/
def mergeState (policy : Policy) (state : StateDict) (target : List (Text × Tensor))
    (unread : List Text) : Effect Memory Merge := do
  let count := (← get).buffers.length
  modify fun live => ⟨live.buffers ++ state.memory.buffers⟩
  let loaded := state.tensors.map fun (name, t) => (name, t.shift count)
  Effect.andFinally (reconcile policy loaded target unread)
    (modify fun all => ⟨all.buffers.take count⟩)

end Checkpoint
