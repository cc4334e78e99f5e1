import Checkpoint.Error
import Checkpoint.Pickle.Graph
/-!
Objects as collections.  A text is a collection of its characters, a byte string of its bytes, a mapping
of its keys, and a tensor of the tensors along its first dimension.
-/

namespace Checkpoint.Pickle.Graph

/-- Adds an object for each node; says their numbers. -/
def addAll (g : Graph) : List Node → List Nat × Graph
  | [] => ([], g)
  | n :: rest =>
    let (id, g) := g.add n
    let (ids, g) := g.addAll rest
    (id :: ids, g)

/-- The items of a collection in turn. -/
def items (g : Graph) (id : Nat) : Except Error (List Nat × Graph) :=
  match g.node id with
  | .tuple items | .list items => .ok (items, g)
  | .dict entries | .ordered entries _ | .mapping _ entries _ => .ok (entries.map Prod.fst, g)
  | .emptySet => .ok ([], g)
  | .text t => .ok (g.addAll (t.points.map fun c => .text (.singleton c)))
  | .bytes b => .ok (g.addAll (b.map fun x => .int x.toNat))
  | .tensor t => match t.rows? with
    | some rows => .ok (g.addAll (rows.map .tensor))
    | none => .error (.typeFault .notACollection)
  | _ => .error (.typeFault .notACollection)

/-- The two items of a pair. -/
def pair (g : Graph) (id : Nat) : Except Error ((Nat × Nat) × Graph) := do
  match ← g.items id with
  | ([first, second], g) => return ((first, second), g)
  | (items, _) => throw (.rangeFault (.pairSize items.length))

/-- Whether an object can be a key, at most `fuel` tuples around one another: those that change
cannot. -/
def isHashable (g : Graph) : Nat → Nat → Bool
  | 0, _ => false
  | fuel + 1, id =>
    match g.node id with
    | .list _ | .dict _ | .ordered .. | .mapping .. | .emptySet => false
    | .tuple items => items.all (g.isHashable fuel)
    | _ => true

/-- Enters a key that has to be able to be one. -/
def enterKey (g : Graph) (entries : List (Nat × Nat)) (key value : Nat) :
    Except Error (List (Nat × Nat)) :=
  if g.isHashable g.nodes.size key then .ok (g.enter entries key value)
  else .error (.typeFault .unhashableKey)

/-- Enters pairs in turn into the entries of a mapping. -/
def enterPairs (g : Graph) (entries : List (Nat × Nat)) :
    List Nat → Except Error (List (Nat × Nat) × Graph)
  | [] => .ok (entries, g)
  | item :: rest => do
    let ((key, value), g) ← g.pair item
    g.enterPairs (← g.enterKey entries key value) rest

/-- The entries of the mapping that a collection of pairs makes. -/
def entriesOfPairs (g : Graph) (id : Nat) : Except Error (List (Nat × Nat) × Graph) := do
  let (items, g) ← g.items id
  g.enterPairs [] items

end Checkpoint.Pickle.Graph
