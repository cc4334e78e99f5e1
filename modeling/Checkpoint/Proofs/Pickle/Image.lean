import Checkpoint.Pickle.Encoder
import Checkpoint.Pickle.Machine
import Checkpoint.Proofs.List
import Mathlib.Logic.Relation

/-! What the values of a machine show of a graph.  Scalars and tuples show a node by themselves,
containers by their place on the heap, and tensors by the number of their storage. -/

namespace Checkpoint.Pickle

/-- Where containers have been placed, which node a float or a tuple of some birth shows, the
storages that have been registered, and a bound on births. -/
structure World where
  place : Nat → Option Nat := fun _ => none
  origin : Nat → Option Nat := fun _ => none
  registered : Nat → Prop := fun _ => False
  clock : Nat := 0

namespace World

structure Extends (w w' : World) : Prop where
  place : ∀ id o, w.place id = some o → w'.place id = some o
  origin : ∀ birth id, w.origin birth = some id → w'.origin birth = some id
  registered : ∀ n, w.registered n → w'.registered n
  clock : w.clock ≤ w'.clock

theorem Extends.refl (w : World) : w.Extends w :=
  ⟨fun _ _ h => h, fun _ _ h => h, fun _ h => h, Nat.le_refl _⟩

theorem Extends.trans {w w' w'' : World} (h : w.Extends w') (h' : w'.Extends w'') :
    w.Extends w'' where
  place id o ho := h'.place id o (h.place id o ho)
  origin birth id ho := h'.origin birth id (h.origin birth id ho)
  registered n hn := h'.registered n (h.registered n hn)
  clock := Nat.le_trans h.clock h'.clock

end World

/-- Each storage has been entered under its number, with the type of a tensor that uses it. -/
structure Encoder.Entered (tensors : Tensor → Prop) (uses : List StorageUse) : Prop where
  used : ∀ use ∈ uses, ∃ t, tensors t ∧ use.storage = t.storage ∧ use.dtype = t.dtype
  keys : ∀ n use, uses[n]? = some use → use.key = Text.ofNat n

/-- A storage is entered with the type of the tensor that uses it first. -/
theorem Encoder.Entered.concat {tensors : Tensor → Prop} {uses : List StorageUse} {t : Tensor}
    (h : Entered tensors uses) (ht : tensors t) : Entered tensors
      (uses ++ [{ key := Text.ofNat uses.length, storage := t.storage, dtype := t.dtype }]) := by
  constructor
  · intro use hu
    obtain hu | hu := List.mem_append.1 hu
    · exact h.used use hu
    · obtain rfl := List.mem_singleton.1 hu
      exact ⟨t, ht, rfl, rfl⟩
  · intro n use hn
    rw [List.getElem?_append] at hn
    split at hn
    · exact h.keys n use hn
    · next past =>
      rw [List.getElem?_singleton] at hn
      split at hn
      · next last =>
        cases hn
        have place : n = uses.length := by omega
        rw [place]
      · cases hn

/-- The number of a tensor's storage among those of a stream. -/
def storageNumber (uses : List StorageUse) (t : Tensor) : Nat :=
  uses.findIdx (·.storage == t.storage)

/-- How many elements a storage is said to have. -/
def StorageUse.count (memory : Memory) (use : StorageUse) : Nat :=
  (memory.buffer use.storage).length / use.dtype.size

/-- What is registered for a storage. -/
def StorageUse.blob (memory : Memory) (use : StorageUse) : Archive.Blob where
  key := use.key
  dtype := use.dtype
  count := use.count memory
  size := (use.count memory : Int) * use.dtype.size

/-- The reference to a storage. -/
def StorageUse.reference (memory : Memory) (use : StorageUse) : PersistentRef where
  key := use.key
  dtype := use.dtype
  count := use.count memory
  location := Encoder.locationWord

/-- The view of a numbered storage that a tensor is written as. -/
def viewOf (t : Tensor) (n : Nat) : TensorRef where
  dtype := t.dtype
  shape := t.shape.map Int.ofNat
  stride := t.stride.map Int.ofNat
  storageKey := Text.ofNat n
  offset := t.offset

def Node.isContainer : Node → Bool
  | .list _ | .dict _ | .ordered .. => true
  | _ => false

/-- Whether a node is a tuple with items, which is written once. -/
def Node.isFilledTuple : Node → Bool
  | .tuple items => !items.isEmpty
  | _ => false

/-- A value shows a node. -/
inductive Shows (g : Graph) (uses : List StorageUse) (w : World) : Nat → Value → Prop
  | none {id : Nat} : g.node id = .none → Shows g uses w id .none
  | bool {id : Nat} {b : Bool} : g.node id = .bool b → Shows g uses w id (.bool b)
  | int {id : Nat} {n : Int} : g.node id = .int n → Shows g uses w id (.int n)
  | float {id : Nat} {x : Double} {birth : Nat} : g.node id = .float x →
    w.origin birth = some id → Shows g uses w id (.float x birth)
  | text {id : Nat} {t : Text} : g.node id = .text t → Shows g uses w id (.text t)
  | tuple {id : Nat} {items : List Nat} {values : List Value} {birth : Nat} :
    g.node id = .tuple items → w.origin birth = some id → items.length = values.length →
    (∀ p ∈ items.zip values, Shows g uses w p.1 p.2) → Shows g uses w id (.tuple values birth)
  | object {id o : Nat} : (g.node id).isContainer = true → w.place id = some o →
    Shows g uses w id (.object o)
  | tensor {id : Nat} {t : Tensor} : g.node id = .tensor t →
    w.registered (storageNumber uses t) →
    Shows g uses w id (.tensor (viewOf t (storageNumber uses t)))
  | storageClass {id : Nat} {name : Text} {dtype : DType} : g.node id = .storageClass name →
    DType.ofStorageClass? name = some dtype → Shows g uses w id (.storageClass name dtype)

/-- A value shows what the memo tells apart by an identity. -/
def Stands (g : Graph) (uses : List StorageUse) (w : World) : Identity → Value → Prop
  | .node id, v => Shows g uses w id v
  | .short t, v => v = .text t
  | .storageWord, v => v = .text Encoder.storageWord
  | .locationWord, v => v = .text Encoder.locationWord
  | .storageKey n, v => v = .text (Text.ofNat n)
  | .global module name, v => findGlobal module name = .ok v
  | .temporary _, _ => True

/-- The entries of a mapping show those of a node, in order. -/
def ShowsEntries (g : Graph) (uses : List StorageUse) (w : World) :
    List (Nat × Nat) → List (Value × Value) → Prop :=
  List.Forall₂ fun e v => Shows g uses w e.1 v.1 ∧ Shows g uses w e.2 v.2

def ShowsAttributes (g : Graph) (uses : List StorageUse) (w : World) :
    List (Text × Nat) → List (Text × Value) → Prop :=
  List.Forall₂ fun a v => a.1 = v.1 ∧ Shows g uses w a.2 v.2

/-- The object at a place shows the contents of a container. -/
def Filled (g : Graph) (uses : List StorageUse) (w : World) (h : Heap) (id o : Nat) : Prop :=
  match g.node id with
  | .list items => ∃ values, h.get? o = some (.list values) ∧
    List.Forall₂ (Shows g uses w) items values
  | .dict entries => ∃ table, h.get? o = some (.dict table) ∧
    ShowsEntries g uses w entries table.entries
  | .ordered entries attributes => ∃ table fields, h.get? o = some (.ordered table fields) ∧
    ShowsEntries g uses w entries table.entries ∧
    ShowsAttributes g uses w attributes fields.entries
  | _ => False

section Growth

variable {g : Graph} {uses : List StorageUse} {w w' w'' : World} {h h' h'' : Heap}

theorem Shows.mono {id : Nat} {v : Value} (hv : Shows g uses w id v) (hw : w.Extends w') :
    Shows g uses w' id v := by
  induction hv with
  | none hg => exact .none hg
  | bool hg => exact .bool hg
  | int hg => exact .int hg
  | float hg ho => exact .float hg (hw.origin _ _ ho)
  | text hg => exact .text hg
  | tuple hg ho hl _ ih => exact .tuple hg (hw.origin _ _ ho) hl ih
  | object hg hp => exact .object hg (hw.place _ _ hp)
  | tensor hg hr => exact .tensor hg (hw.registered _ hr)
  | storageClass hg hd => exact .storageClass hg hd

theorem Stands.mono {o : Identity} {v : Value} (hv : Stands g uses w o v) (hw : w.Extends w') :
    Stands g uses w' o v := by
  cases o with
  | node id => exact Shows.mono hv hw
  | _ => exact hv

theorem ShowsEntries.mono {entries : List (Nat × Nat)} {values : List (Value × Value)}
    (hv : ShowsEntries g uses w entries values) (hw : w.Extends w') :
    ShowsEntries g uses w' entries values :=
  List.Forall₂.imp (fun _ _ hs => ⟨hs.1.mono hw, hs.2.mono hw⟩) hv

theorem ShowsAttributes.mono {attributes : List (Text × Nat)} {values : List (Text × Value)}
    (hv : ShowsAttributes g uses w attributes values) (hw : w.Extends w') :
    ShowsAttributes g uses w' attributes values :=
  List.Forall₂.imp (fun _ _ hs => ⟨hs.1, hs.2.mono hw⟩) hv

theorem Filled.mono {id o : Nat} (hf : Filled g uses w h id o) (hw : w.Extends w')
    (ho : h'.get? o = h.get? o) : Filled g uses w' h' id o := by
  unfold Filled at *
  split at hf
  · obtain ⟨values, hv, hs⟩ := hf
    exact ⟨values, ho.trans hv, hs.imp fun _ _ hs => hs.mono hw⟩
  · obtain ⟨table, ht, hs⟩ := hf
    exact ⟨table, ho.trans ht, hs.mono hw⟩
  · obtain ⟨table, fields, ht, hs, ha⟩ := hf
    exact ⟨table, fields, ho.trans ht, hs.mono hw, ha.mono hw⟩
  · exact hf

/-- What running changes: the objects there were stay as they are, but for some, and a container that
is placed is filled. -/
structure Grew (g : Graph) (uses : List StorageUse) (C : Nat → Prop) (w : World) (h : Heap)
    (w' : World) (h' : Heap) : Prop where
  world : w.Extends w'
  size : h.objects.size ≤ h'.objects.size
  kept : ∀ o, o < h.objects.size → ¬ C o → h'.get? o = h.get? o
  filled : ∀ id o, w'.place id = some o →
    w.place id = some o ∨ h.objects.size ≤ o ∧ Filled g uses w' h' id o

variable {C : Nat → Prop}

theorem Grew.refl (w : World) (h : Heap) : Grew g uses C w h w h :=
  ⟨.refl w, Nat.le_refl _, fun _ _ _ => rfl, fun _ _ hp => .inl hp⟩

theorem Filled.lt_size {id o : Nat} (hf : Filled g uses w h id o) : o < h.objects.size := by
  have lt {object : Object} (ho : h.get? o = some object) : o < h.objects.size :=
    (Array.getElem?_eq_some_iff.1 ho).1
  unfold Filled at hf
  split at hf
  · obtain ⟨_, ho, _⟩ := hf
    exact lt ho
  · obtain ⟨_, ho, _⟩ := hf
    exact lt ho
  · obtain ⟨_, _, ho, _⟩ := hf
    exact lt ho
  · exact hf.elim

/-- What changes later was there from the start. -/
theorem Grew.trans (hg : Grew g uses C w h w' h') (hg' : Grew g uses C w' h' w'' h'')
    (hC : ∀ o, C o → o < h.objects.size) : Grew g uses C w h w'' h'' where
  world := hg.world.trans hg'.world
  size := Nat.le_trans hg.size hg'.size
  kept o ho hc := (hg'.kept o (Nat.lt_of_lt_of_le ho hg.size) hc).trans (hg.kept o ho hc)
  filled id o hp := by
    obtain hp | ⟨ho, hf⟩ := hg'.filled id o hp
    · obtain hp | ⟨ho, hf⟩ := hg.filled id o hp
      · exact .inl hp
      -- A container that was placed in between is not among those that change.
      · have unchanged : ¬ C o := fun hc => absurd (hC o hc) (Nat.not_lt.2 ho)
        exact .inr ⟨ho, hf.mono hg'.world (hg'.kept o hf.lt_size unchanged)⟩
    · exact .inr ⟨Nat.le_trans hg.size ho, hf⟩

end Growth

end Checkpoint.Pickle
