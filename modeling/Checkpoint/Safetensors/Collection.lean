import Checkpoint.Insertion
import Checkpoint.Pickle.Collection
import Checkpoint.Pickle.Order
import Checkpoint.Safetensors.Writer
/-!
Writing any collection as a safetensors file.  Its items are taken as names, sorted, and looked up in
the collection: a mapping has values for them, a sequence takes them as indices.
-/

namespace Checkpoint.Safetensors

open Pickle (Graph)

/-- What an item counts as when it is compared, or taken as an index. -/
inductive Rank
  | plain (v : Pickle.Value)
  /-- A tensor with one element counts as that number. -/
  | scalar (v : Pickle.Value)
  /-- A tensor with several elements, or none. -/
  | several

namespace Rank

/-- The one element of a tensor as a number. -/
def ofElement (d : DType) (bytes : Bytes) : Rank :=
  match DType.Element.ofBytes d bytes with
  | .integer n => .scalar (.int n)
  | .real .. => .scalar (.float ⟨UInt64.ofNat (Bytes.fromLittleEndian (d.convert .float64 bytes))⟩ 0)
  | .complex .. => .several

def ofItem (g : Graph) (id : Nat) : Rank :=
  match g.node id with
  | .tensor t => match g.memory.elements t with
    | [bytes] => ofElement t.dtype bytes
    | _ => .several
  | _ => .plain (g.key g.nodes.size id)

def isNumber : Rank → Bool
  | .plain v => v.isNumber
  | _ => true

def less (a b : Rank) : Except Error Bool :=
  match a, b with
  | .plain v, .plain w => match v.less? w with
    | some answer => .ok answer
    | none => .error (.typeFault .incomparable)
  | a, b =>
    if !a.isNumber || !b.isNumber then .error (.typeFault .incomparable)
    else match a, b with
      | .plain v, .scalar w | .scalar v, .plain w | .scalar v, .scalar w => .ok (v.numberLess w)
      | _, _ => .error (.tensorFault .ambiguous)

def index? : Rank → Option Int
  | .plain v | .scalar v => v.integer?
  | .several => none

end Rank

/-- What a sequence has at an index, which may count from the end. -/
def itemAt (items : List (Option Tensor)) (index : Rank) : Except Error (Option Tensor) :=
  match index.index? with
  | none => .error (.typeFault .notAnIndex)
  | some n =>
    let place := if n < 0 then n + items.length else n
    if place < 0 then .error .indexOutOfRange
    else match items[place.toNat]? with
      | some content => .ok content
      | none => .error .indexOutOfRange

/-- What a tensor has at one of its `rows`, taken as an index.  Bytes and truth values select. -/
def rowAt (rows : List (Option Tensor)) (row : Tensor) (index : Rank) :
    Except Error (Option Tensor) :=
  if row.shape.isEmpty ∧ (row.dtype = .uint8 ∨ row.dtype = .bool) then .ok (some row)
  else if row.shape.isEmpty ∧ index.index?.isSome then itemAt rows index
  else .error .indexOutOfRange

def tensorAt? (g : Graph) (id : Nat) : Option Tensor :=
  match g.node id with
  | .tensor t => some t
  | _ => none

/-- The items of an object as names, each with what the object has for it. -/
def namedValues (g : Graph) (id : Nat) : Except Error (List (Rank × Named)) :=
  match g.node id with
  | .dict entries | .ordered entries _ | .mapping _ entries _ =>
    .ok (entries.map fun (key, value) =>
      (Rank.ofItem g key,
        { name := g.key g.nodes.size key, found := .ok (tensorAt? g value) }))
  | whole => do
    let (items, g) ← g.items id
    let contents := items.map (tensorAt? g)
    return items.map fun item =>
      let rank := Rank.ofItem g item
      let found := match whole, g.node item with
        | .tensor _, .tensor row => rowAt contents row rank
        | _, _ => itemAt contents rank
      (rank, { name := g.key g.nodes.size item, found })

/-- Writes an object as a file. -/
def saveObject (config : Config) (g : Graph) (metadata : Option (List (Json.Value × Json.Value)))
    (id : Nat) : Action Nat := do
  let metadata ← Effect.ofExcept (metadata.mapM metadataOfPairs)
  let values ← Effect.ofExcept (namedValues g id)
  let sorted ← Effect.ofExcept
    (Insertion.sort (fun a b : Rank × Named => Rank.less a.1 b.1) values)
  let plan ← Effect.ofExcept (plan metadata (sorted.map Prod.snd))
  plan.write config g.memory

end Checkpoint.Safetensors
