import Checkpoint.Pickle.Value
import Checkpoint.Tensor
/-!
Object graphs to be written.  A node is an object, its number its identity: a node that is used
twice is one object used twice, and two nodes are two objects however alike.  Cycles run through
lists and mappings; a tuple comes after the objects it holds.
-/

namespace Checkpoint.Pickle

inductive Node
  | none
  | bool (b : Bool)
  | int (n : Int)
  | float (x : Double)
  | text (t : Text)
  | bytes (b : Bytes)
  | tuple (items : List Nat)
  | list (items : List Nat)
  | dict (entries : List (Nat × Nat))
  | ordered (entries : List (Nat × Nat)) (attributes : List (Text × Nat))
  | tensor (t : Tensor)
  | storageClass (name : Text)
  /-- A mapping of a type of its own, which is no more than its entries at the top. -/
  | mapping (type : Text) (entries : List (Nat × Nat)) (attributes : List (Text × Nat))
  | emptySet
  deriving Inhabited

structure Graph where
  nodes : Array Node := #[]
  memory : Memory := {}
  deriving Inhabited

namespace Graph

def node (g : Graph) (id : Nat) : Node := g.nodes.getD id .none

def add (g : Graph) (n : Node) : Nat × Graph := (g.nodes.size, { g with nodes := g.nodes.push n })

def set (g : Graph) (id : Nat) (n : Node) : Graph :=
  { g with nodes := g.nodes.setIfInBounds id n }

/-- An object as a key.  Objects without a value of their own are the same as themselves only. -/
def key (g : Graph) : Nat → Nat → Value
  | 0, id => .object id
  | fuel + 1, id =>
    match g.node id with
    | .none => .none
    | .bool b => .bool b
    | .int n => .int n
    | .float x => .float x id
    | .text t => .text t
    | .bytes b => .bytes b
    | .storageClass name => .storageClass name ((DType.ofStorageClass? name).getD default)
    | .tuple items => .tuple (items.map (g.key fuel)) id
    | _ => .object id

/-- Enters a key into the entries of a mapping; a key that is there keeps its object and place. -/
def enter (g : Graph) (entries : List (Nat × Nat)) (key value : Nat) : List (Nat × Nat) :=
  let rank := g.nodes.size
  match entries with
  | [] => [(key, value)]
  | entry :: rest =>
    if Value.same (g.key rank entry.1) (g.key rank key) then (entry.1, value) :: rest
    else entry :: g.enter rest key value

end Graph

end Checkpoint.Pickle
