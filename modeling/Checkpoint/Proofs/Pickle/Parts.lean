import Checkpoint.Pickle.Encoder

/-! What is written for an object, taken apart: the entries and attributes of a mapping, and for each kind
of object what is written when it is not in the memo. -/

namespace Checkpoint.Pickle

namespace Graph

variable {g : Graph} {id n : Nat}

theorem identity_of_text {t : Text} (h : g.node id = .text t) :
    g.identity id = Identity.ofText t (.node id) := by
  simp only [identity, h]

/-- Only texts and storage classes are told apart by what they are. -/
theorem identity_of_node {node : Node} (h : g.node id = node) (text : ∀ t, node ≠ .text t)
    (storageClass : ∀ name, node ≠ .storageClass name) : g.identity id = .node id := by
  subst h
  unfold identity
  split
  · next t hg => exact absurd hg (text t)
  · next name hg => exact absurd hg (storageClass name)
  · rfl

theorem identity_eq_node (h : g.identity id = .node n) : n = id := by
  unfold identity Identity.ofText at h
  split at h
  · split at h <;> cases h
    rfl
  · cases h
  · cases h
    rfl

theorem identity_ne_temporary (h : g.identity id = .temporary n) : False := by
  unfold identity Identity.ofText at h
  split at h
  · split at h <;> cases h
  · cases h
  · cases h

end Graph

namespace Encoder

/-- Writes an entry of a mapping. -/
def saveEntry (config : Config) (g : Graph) (fuel : Nat) (entry : Nat × Nat) : Encoding Unit := do
  save config g fuel entry.1
  save config g fuel entry.2

/-- Writes the attributes of an ordered mapping, if it has any. -/
def saveAttributes (config : Config) (g : Graph) (fuel : Nat) (attributes : List (Text × Nat)) :
    Encoding Unit :=
  unless attributes.isEmpty do
    emit .emptyDict
    memoizeFresh
    saveItems config .setItem .setItems (attributes.map fun (name, value) => do
      saveText (Identity.ofText name (← fresh)) name
      save config g fuel value)
    emit .build

/-- Writes an object that is not in the memo. -/
@[simp]
def saveNode (config : Config) (g : Graph) (fuel id : Nat) : Node → Encoding Unit
  | .none => emit .none
  | .bool b => emit (.bool b)
  | .int n => saveInt n
  | .float x => emit (.float x)
  | .text t => saveText (g.identity id) t
  | .tuple items => saveTuple (pure (.node id)) (items.map (save config g fuel))
  | .list items => do
    emit .emptyList
    memoize (.node id)
    saveItems config .append .appends (items.map (save config g fuel))
  | .dict entries => do
    emit .emptyDict
    memoize (.node id)
    saveItems config .setItem .setItems (entries.map (saveEntry config g fuel))
  | .ordered entries attributes => do
    orderedDict
    memoize (.node id)
    saveItems config .setItem .setItems (entries.map (saveEntry config g fuel))
    saveAttributes config g fuel attributes
  | .tensor t => saveTensor g.memory (.node id) t
  | .storageClass name => match DType.ofStorageClass? name with
    | some _ => saveGlobal storageModule name
    | none => throw (.unexpectedStructure
      (.cannotEncode (if name = "Tensor" then "_TensorMeta" else "type")))
  | .mapping type _ _ => throw (.unexpectedStructure (.cannotEncode type))
  | .bytes _ => throw (.unexpectedStructure (.cannotEncode "bytes"))
  | .emptySet => throw (.unexpectedStructure (.cannotEncode "set"))

variable {config : Config} {g : Graph} {fuel id : Nat}

theorem save_succ (config : Config) (g : Graph) (fuel id : Nat) : save config g (fuel + 1) id =
    once (g.identity id) (saveNode config g fuel id (g.node id)) := by
  rfl

/-- An object that goes by its number is stored under that. -/
theorem save_node {node : Node} (h : g.node id = node) (text : ∀ t, node ≠ .text t)
    (storageClass : ∀ name, node ≠ .storageClass name) :
    save config g (fuel + 1) id = once (.node id) (saveNode config g fuel id node) := by
  rw [save_succ, Graph.identity_of_node h text storageClass, h]

theorem save_text {t : Text} (h : g.node id = .text t) :
    save config g (fuel + 1) id = once (g.identity id) (saveText (g.identity id) t) := by
  rw [save_succ, h]
  rfl

theorem save_tuple {items : List Nat} (h : g.node id = .tuple items) :
    save config g (fuel + 1) id =
      once (.node id) (saveTuple (pure (.node id)) (items.map (save config g fuel))) := by
  rw [save_node h nofun nofun, saveNode]

theorem save_list {items : List Nat} (h : g.node id = .list items) :
    save config g (fuel + 1) id = once (.node id) (emit .emptyList >>= fun _ => memoize (.node id) >>= fun _ =>
      saveItems config .append .appends (items.map (save config g fuel))) := by
  rw [save_node h nofun nofun, saveNode]

theorem save_dict {entries : List (Nat × Nat)} (h : g.node id = .dict entries) :
    save config g (fuel + 1) id = once (.node id) (emit .emptyDict >>= fun _ => memoize (.node id) >>= fun _ =>
      saveItems config .setItem .setItems (entries.map (saveEntry config g fuel))) := by
  rw [save_node h nofun nofun, saveNode]

theorem save_ordered {entries : List (Nat × Nat)} {attributes : List (Text × Nat)}
    (h : g.node id = .ordered entries attributes) :
    save config g (fuel + 1) id = once (.node id) (orderedDict >>= fun _ => memoize (.node id) >>= fun _ =>
      saveItems config .setItem .setItems (entries.map (saveEntry config g fuel)) >>= fun _ =>
        saveAttributes config g fuel attributes) := by
  rw [save_node h nofun nofun, saveNode]

theorem save_tensor {t : Tensor} (h : g.node id = .tensor t) :
    save config g (fuel + 1) id = once (.node id) (saveTensor g.memory (.node id) t) := by
  rw [save_node h nofun nofun, saveNode]

theorem save_storageClass {name : Text} {d : DType} (h : g.node id = .storageClass name)
    (known : DType.ofStorageClass? name = some d) :
    save config g (fuel + 1) id = once (g.identity id) (saveGlobal storageModule name) := by
  rw [save_succ, h, saveNode, known]

/-- A type that no storage has cannot be written. -/
theorem save_otherClass {name : Text} (h : g.node id = .storageClass name)
    (unknown : DType.ofStorageClass? name = none) :
    save config g (fuel + 1) id = once (g.identity id) (throw (.unexpectedStructure
      (.cannotEncode (if name = "Tensor" then "_TensorMeta" else "type")))) := by
  rw [save_succ, h, saveNode, unknown]

end Encoder

end Checkpoint.Pickle
