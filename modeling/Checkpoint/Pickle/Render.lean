import Checkpoint.Pickle.Value
import Checkpoint.Decimal.Shortest
import Checkpoint.Text.Quoted
/-!
How messages show values.  A container that holds itself is shown as dots where it recurs.
-/

namespace Checkpoint.Pickle

open Text

def showBool (b : Bool) : Text := if b then "True" else "False"

/-- A record as its type and its named fields. -/
def showRecord (type : Text) (fields : List (Text × Text)) : Text :=
  type ++ "(" ++ intercalate ", " (fields.map fun (name, shown) => name ++ "=" ++ shown) ++ ")"

def PersistentRef.shown (r : PersistentRef) : Text :=
  showRecord "PersistentRef" [
    ("key", r.key.quoted), ("dtype", r.dtype.shown), ("numel", ofInt r.count),
    ("location", r.location.quoted)]

def TensorRef.shown (t : TensorRef) : Text :=
  showRecord "TensorRef" [
    ("dtype", t.dtype.shown), ("shape", tupleOfInts t.shape), ("stride", tupleOfInts t.stride),
    ("storage_key", t.storageKey.quoted), ("storage_offset", ofInt t.offset),
    ("requires_grad", showBool t.requiresGrad)]

def Constructor.shown (c : Constructor) : Text :=
  showRecord "Global" [("module", c.module.quoted), ("name", c.name.quoted)]

def braced (items : List Text) : Text :=
  "\x7b" ++ intercalate ", " items ++ "\x7d"

namespace Heap

/-- Shows a value, where `free` are the objects and `inside` the tuples that are not, or are, being
shown around it. -/
def render (h : Heap) (free : List Nat) (inside : List Nat) (v : Value) : Text :=
  match v with
  | .none => "None"
  | .bool b => showBool b
  | .int n => ofInt n
  | .float x _ => Decimal.ofDouble x
  | .text t => t.quoted
  | .bytes b => quotedBytes b
  | .tuple items birth =>
    if items.isEmpty then "()"
    else if inside.contains birth then "(...)"
    else parenthesized (items.attach.map fun ⟨item, _⟩ => render h free (birth :: inside) item)
  | .object id =>
    if _ : id ∈ free then
      match h.get? id with
      | some (.list items) => bracketed (items.map fun item => render h (free.erase id) inside item)
      | some (.dict entries) =>
        braced (entries.entries.map fun (key, value) =>
          render h (free.erase id) inside key ++ ": " ++ render h (free.erase id) inside value)
      | some (.ordered entries _) =>
        if entries.entries.isEmpty then "OrderedDict()"
        else
          "OrderedDict(" ++ bracketed (entries.entries.map fun (key, value) =>
            parenthesized [render h (free.erase id) inside key,
              render h (free.erase id) inside value]) ++ ")"
      | Option.none => ""
    else
      match h.get? id with
      | some (.list _) => "[...]"
      | some (.dict _) => "\x7b...\x7d"
      | _ => "..."
  | .constructor c => c.shown
  | .storageClass name dtype =>
    showRecord "StorageType" [("name", name.quoted), ("dtype", dtype.shown)]
  | .scalarType name dtype =>
    showRecord "ScalarTag" [("name", name.quoted), ("dtype", dtype.shown)]
  | .persistent r => r.shown
  | .tensor t => t.shown
termination_by (free.length, sizeOf v)
decreasing_by
  · rename_i hi
    have := List.sizeOf_lt_of_mem hi
    simp_wf
    apply Prod.Lex.right
    omega
  all_goals
    apply Prod.Lex.left
    have : 0 < free.length := List.length_pos_of_mem (by assumption)
    rw [List.length_erase_of_mem (by assumption)]
    omega

/-- Shows a value as a message does. -/
def shown (h : Heap) (v : Value) : Text := h.render (List.range h.objects.size) [] v

end Heap

end Checkpoint.Pickle
