import Checkpoint.Pickle.Encoder
import Mathlib.Logic.Equiv.Basic

/-! Graphs that differ only in the numbers of their objects and storages.  Keys are compared alike in
both, and both are written as the same mapping. -/

namespace Checkpoint.Pickle

/-- Other numbers for objects and for storages. -/
structure Renaming where
  objects : Equiv.Perm Nat
  storages : Equiv.Perm Nat

namespace Renaming

variable (r : Renaming)

def tensor (t : Tensor) : Tensor := { t with storage := r.storages t.storage }

def entries (entries : List (Nat × Nat)) : List (Nat × Nat) :=
  entries.map fun e => (r.objects e.1, r.objects e.2)

def attributes (attributes : List (Text × Nat)) : List (Text × Nat) :=
  attributes.map fun a => (a.1, r.objects a.2)

def node : Node → Node
  | .tuple items => .tuple (items.map r.objects)
  | .list items => .list (items.map r.objects)
  | .dict entries => .dict (r.entries entries)
  | .ordered entries attributes => .ordered (r.entries entries) (r.attributes attributes)
  | .tensor t => .tensor (r.tensor t)
  | .mapping type entries attributes => .mapping type (r.entries entries) (r.attributes attributes)
  | .none => .none
  | .bool b => .bool b
  | .int n => .int n
  | .float x => .float x
  | .text t => .text t
  | .bytes b => .bytes b
  | .storageClass name => .storageClass name
  | .emptySet => .emptySet

mutual

/-- An object as a key, under its other number. -/
def value : Value → Value
  | .float x birth => .float x (r.objects birth)
  | .tuple items birth => .tuple (values items) (r.objects birth)
  | .object id => .object (r.objects id)
  | v => v

def values : List Value → List Value
  | [] => []
  | v :: rest => value v :: values rest

end

theorem values_eq_map (items : List Value) : r.values items = items.map r.value := by
  induction items with
  | nil => rfl
  | cons v rest ih => rw [values, ih, List.map_cons]

theorem objects_beq (a b : Nat) : (r.objects a == r.objects b) = (a == b) :=
  r.objects.injective.beq_eq

mutual

/-- Keys that are the same are so under all numbers. -/
theorem same_value (v w : Value) : Value.same (r.value v) (r.value w) = Value.same v w := by
  cases v with
  | tuple xs a =>
    cases w with
    | tuple ys b =>
      simp only [value, Value.same, same_values xs ys, objects_beq]
    | _ => rfl
  | object a =>
    cases w with
    | object b => simp only [value, Value.same, objects_beq]
    | _ => rfl
  | float x a =>
    cases w with
    | float y b => simp only [value, Value.same, objects_beq]
    | _ => rfl
  | _ => cases w <;> rfl

theorem same_values (xs ys : List Value) :
    Value.sameAll (r.values xs) (r.values ys) = Value.sameAll xs ys := by
  cases xs with
  | nil => cases ys <;> rfl
  | cons x xs =>
    cases ys with
    | nil => rfl
    | cons y ys => simp only [values, Value.sameAll, same_value x y, same_values xs ys]

end

end Renaming

namespace Graph

/-- One graph is another under other numbers. -/
structure Isomorphic (r : Renaming) (g g' : Graph) : Prop where
  size : g'.nodes.size = g.nodes.size
  outside : ∀ id, g.nodes.size ≤ id → r.objects id = id
  node : ∀ id, g'.node (r.objects id) = r.node (g.node id)
  buffer : ∀ n, g'.memory.buffer (r.storages n) = g.memory.buffer n

namespace Isomorphic

variable {r : Renaming} {g g' : Graph}

/-- A new object has the same number in both. -/
theorem add (iso : g.Isomorphic r g') (n : Node) : (g.add n).2.Isomorphic r (g'.add (r.node n)).2 ∧
    (g'.add (r.node n)).1 = r.objects (g.add n).1 := by
  have last : r.objects g.nodes.size = g.nodes.size := iso.outside _ (Nat.le_refl _)
  refine ⟨⟨?_, ?_, ?_, iso.buffer⟩, ?_⟩
  · simp only [Graph.add, Array.size_push, iso.size]
  · intro id past
    apply iso.outside
    simp only [Graph.add, Array.size_push] at past
    omega
  · intro id
    have old := iso.node id
    simp only [Graph.node, Graph.add, Array.getD_eq_getD_getElem?, Array.getElem?_push, iso.size] at old ⊢
    by_cases same : id = g.nodes.size
    · rw [same, last]
      simp
    · have other : r.objects id ≠ g.nodes.size := fun h =>
        same (r.objects.injective (h.trans last.symm))
      rw [if_neg same, if_neg other]
      exact old
  · exact iso.size.trans last.symm

theorem addAll (iso : g.Isomorphic r g') (nodes : List Node) :
    (g.addAll nodes).2.Isomorphic r (g'.addAll (nodes.map r.node)).2 ∧
      (g'.addAll (nodes.map r.node)).1 = (g.addAll nodes).1.map r.objects := by
  induction nodes generalizing g g' with
  | nil => exact ⟨iso, rfl⟩
  | cons n nodes ih =>
    obtain ⟨added, number⟩ := iso.add n
    obtain ⟨rest, numbers⟩ := ih added
    exact ⟨rest, congrArg₂ List.cons number numbers⟩

theorem key (iso : g.Isomorphic r g') (fuel id : Nat) :
    g'.key fuel (r.objects id) = r.value (g.key fuel id) := by
  induction fuel generalizing id with
  | zero => rfl
  | succ fuel ih =>
    simp only [Graph.key, iso.node]
    cases g.node id with
    | tuple items =>
      have each : g'.key fuel ∘ r.objects = r.value ∘ g.key fuel := funext ih
      simp only [Renaming.node, Renaming.value, Renaming.values_eq_map, List.map_map, each]
    | _ => rfl

theorem isHashable (iso : g.Isomorphic r g') (fuel id : Nat) :
    g'.isHashable fuel (r.objects id) = g.isHashable fuel id := by
  induction fuel generalizing id with
  | zero => rfl
  | succ fuel ih =>
    simp only [Graph.isHashable, iso.node]
    cases g.node id with
    | tuple items =>
      have each : g'.isHashable fuel ∘ r.objects = g.isHashable fuel := funext ih
      simp only [Renaming.node, List.all_map, each]
    | _ => rfl

theorem enter (iso : g.Isomorphic r g') (entries : List (Nat × Nat)) (key value : Nat) :
    g'.enter (r.entries entries) (r.objects key) (r.objects value) =
      r.entries (g.enter entries key value) := by
  induction entries with
  | nil => rfl
  | cons entry rest ih =>
    have same : Value.same (g'.key g'.nodes.size (r.objects entry.1))
        (g'.key g'.nodes.size (r.objects key)) =
        Value.same (g.key g.nodes.size entry.1) (g.key g.nodes.size key) := by
      rw [iso.size, iso.key, iso.key, r.same_value]
    simp only [Renaming.entries, List.map_cons, Graph.enter, same] at ih ⊢
    split
    · rfl
    · rw [ih, List.map_cons]

end Isomorphic

/-- Both fail alike, or come to the same but for the numbers. -/
def Collects {α : Type} (r : Renaming) (f : α → α) (x y : Except Error (α × Graph)) : Prop :=
  match x, y with
  | .ok (a, g), .ok (b, g') => b = f a ∧ g.Isomorphic r g'
  | .error e, .error e' => e' = e
  | _, _ => False

section Collections

variable {r : Renaming} {g g' : Graph} {α β : Type} {f : α → α} {h : β → β}
  {x y : Except Error (α × Graph)}

theorem Collects.bind {next next' : α × Graph → Except Error (β × Graph)} (first : Collects r f x y)
    (rest : ∀ a g g', g.Isomorphic r g' → Collects r h (next (a, g)) (next' (f a, g'))) :
    Collects r h (x >>= next) (y >>= next') := by
  match x, y, first with
  | .ok (a, g), .ok (_, g'), ⟨rfl, iso⟩ => exact rest a g g' iso
  | .error _, .error _, rfl => exact rfl

theorem Isomorphic.items (iso : g.Isomorphic r g') (id : Nat) :
    Collects r (List.map r.objects) (g.items id) (g'.items (r.objects id)) := by
  have added {nodes nodes' : List Node} (same : nodes' = nodes.map r.node) :
      Collects r (List.map r.objects) (.ok (g.addAll nodes)) (.ok (g'.addAll nodes')) := by
    subst same
    exact ⟨(iso.addAll nodes).2, (iso.addAll nodes).1⟩
  have keys (entries : List (Nat × Nat)) :
      (r.entries entries).map Prod.fst = (entries.map Prod.fst).map r.objects := by
    simp [Renaming.entries]
  simp only [Graph.items, iso.node]
  cases g.node id with
  | tuple | list => exact ⟨rfl, iso⟩
  | dict entries | ordered entries | mapping _ entries => exact ⟨keys entries, iso⟩
  | emptySet => exact ⟨rfl, iso⟩
  | text t => exact added (by simp [Renaming.node])
  | bytes b => exact added (by simp [Renaming.node])
  | tensor t =>
    simp only [Renaming.node, Tensor.rows?, Renaming.tensor]
    cases t.shape with
    | nil => exact rfl
    | cons n shape => exact added (by simp [Renaming.node, Renaming.tensor])
  | none | bool | int | float | storageClass => exact rfl

theorem Isomorphic.pair (iso : g.Isomorphic r g') (id : Nat) :
    Collects r (fun p => (r.objects p.1, r.objects p.2)) (g.pair id) (g'.pair (r.objects id)) := by
  apply (iso.items id).bind
  intro items g g' iso
  match items with
  | [] => exact rfl
  | [_] => exact rfl
  | [first, second] => exact ⟨rfl, iso⟩
  | _ :: _ :: _ :: rest =>
    simp [Collects, List.length_map, throw, throwThe, MonadExceptOf.throw]

theorem Isomorphic.enterPairs (iso : g.Isomorphic r g') (entries : List (Nat × Nat)) (items : List Nat) :
    Collects r r.entries (g.enterPairs entries items)
      (g'.enterPairs (r.entries entries) (items.map r.objects)) := by
  induction items generalizing g g' entries with
  | nil => exact ⟨rfl, iso⟩
  | cons item items ih =>
    apply (iso.pair item).bind
    intro p g g' iso
    simp only [Graph.enterKey, iso.size, iso.isHashable]
    split
    · rw [iso.enter]
      exact ih iso _
    · exact rfl

theorem Isomorphic.entriesOfPairs (iso : g.Isomorphic r g') (id : Nat) :
    Collects r r.entries (g.entriesOfPairs id) (g'.entriesOfPairs (r.objects id)) :=
  (iso.items id).bind fun _ _ _ iso => iso.enterPairs [] _

theorem Isomorphic.metadata (iso : g.Isomorphic r g') (attributes : List (Text × Nat)) :
    ((r.attributes attributes).filter fun (name, value) => name == metadataName &&
        match g'.node value with
          | .none => false
          | _ => true) =
      r.attributes (attributes.filter fun (name, value) => name == metadataName &&
        match g.node value with
          | .none => false
          | _ => true) := by
  simp only [Renaming.attributes, List.filter_map]
  congr 1
  apply List.filter_congr
  intro a _
  simp only [Function.comp, iso.node]
  cases g.node a.2 <;> rfl

/-- Both are written as the same mapping. -/
theorem Isomorphic.asOrdered (iso : g.Isomorphic r g') (id : Nat) :
    Collects r r.objects (g.asOrdered id) (g'.asOrdered (r.objects id)) := by
  have added {n n' : Node} (same : n' = r.node n) :
      Collects r r.objects (.ok (g.add n)) (.ok (g'.add n')) := by
    subst same
    exact ⟨(iso.add n).2, (iso.add n).1⟩
  simp only [Graph.asOrdered, iso.node]
  cases g.node id with
  | ordered => exact ⟨rfl, iso⟩
  | dict => exact added rfl
  | mapping => exact added (congrArg (Node.ordered _) (iso.metadata _))
  | none | bool | int | float | text | bytes | tuple | list | tensor | storageClass | emptySet =>
    apply (iso.entriesOfPairs id).bind
    intro entries g g' iso
    exact ⟨(iso.add (.ordered entries [])).2, (iso.add (.ordered entries [])).1⟩

end Collections

end Graph

end Checkpoint.Pickle
