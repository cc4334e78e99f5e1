import Checkpoint.Proofs.Archive.Materializing
import Checkpoint.Proofs.Pickle.Plain

/-! The round trip of archives: what is saved is loaded with the same names and tensors, over storages
with the same bytes that are shared alike, and with equal metadata. -/

namespace Checkpoint

open Effect Pickle

namespace Pickle

section Plain

variable {g : Graph} {uses : List StorageUse} {top id : Nat} {u v : Value} {w : World} {m : Machine}
  {attributes : List (Text × Nat)}

theorem ShowsEntries.keys {entries : List (Nat × Nat)} {table : Table Value Value}
    (h : ShowsEntries g uses w entries table.entries) :
    List.Forall₂ (Shows g uses w) (entries.map Prod.fst) table.keys := by
  rw [Table.keys, List.forall₂_map_left_iff, List.forall₂_map_right_iff]
  exact h.imp fun _ _ shows => shows.1

theorem ShowsEntries.values {entries : List (Nat × Nat)} {table : Table Value Value}
    (h : ShowsEntries g uses w entries table.entries) :
    List.Forall₂ (Shows g uses w) (entries.map Prod.snd) table.values := by
  rw [Table.values, List.forall₂_map_left_iff, List.forall₂_map_right_iff]
  exact h.imp fun _ _ shows => shows.2

/-- Whether a node is not the one that stands for absence. -/
def Node.isGiven : Node → Bool
  | .none => false
  | _ => true

def Value.isGiven : Value → Bool
  | .none => false
  | _ => true

/-- The metadata among attributes, unless that is absent or nothing. -/
def Graph.givenMetadata (g : Graph) (attributes : List (Text × Nat)) : Option Nat :=
  ((attributes.find? (·.1 == metadataName)).map Prod.snd).filter fun id => (g.node id).isGiven

theorem ShowsAttributes.find? {fields : List (Text × Value)}
    (h : ShowsAttributes g uses w attributes fields) (name : Text) :
    Option.Rel (fun a f => a ∈ attributes ∧ Shows g uses w a.2 f.2)
      (attributes.find? (·.1 == name)) (fields.find? (·.1 == name)) := by
  induction h with
  | nil => exact .none
  | @cons a f attributes fields h _ ih =>
    rw [List.find?_cons, List.find?_cons, h.1]
    cases f.1 == name with
    | true => exact .some ⟨List.mem_cons_self, h.2⟩
    | false =>
      dsimp only
      revert ih
      cases attributes.find? (·.1 == name) <;> cases fields.find? (·.1 == name) <;> intro found <;>
        cases found
      · exact .none
      · next h => exact .some ⟨List.mem_cons_of_mem _ h.1, h.2⟩

end Plain

end Pickle

namespace Archive

section Metadata

variable {g : Graph} {uses : List StorageUse} {top : Nat} {v : Value} {w : Pickle.World} {m : Machine}
  {attributes : List (Text × Nat)}

end Metadata

section Tensors

/-- What a tensor has to be to be saved and loaded: its type has a storage class, its storage holds whole
elements and the view, and its numbers are machine integers. -/
structure Storable (memory : Memory) (t : Tensor) : Prop where
  classed : ∃ name, t.dtype.storageClass? = some name
  whole : t.dtype.size ∣ (memory.buffer t.storage).length
  fits : t.FitsIn ((memory.buffer t.storage).length / t.dtype.size)
  length : (memory.buffer t.storage).length < machineLimit
  within : t.requireWithin (memory.buffer t.storage).length = .ok ()

theorem Storable.canWrite {memory : Memory} {t : Tensor} (h : Storable memory t)
    {tensors : Tensor → Prop} (occurs : tensors t)
    (alike : ∀ t', tensors t' → t'.storage = t.storage → t'.dtype = t.dtype) :
    Encoder.CanWrite memory tensors t := by
  have small : ∀ n ∈ t.offset :: t.shape ++ t.stride, n < machineLimit := by
    have within := h.within
    unfold Tensor.requireWithin at within
    rw [bind_eq_ok] at within
    obtain ⟨_, required, -⟩ := within
    exact Shape.numbers_lt_of_require required
  simp only [List.cons_append, List.forall_mem_cons, List.forall_mem_append] at small
  exact ⟨occurs, alike, h.classed, h.length, small.1, small.2.1, small.2.2⟩

/-- The same names and tensors in the same order, over storages that have the same bytes and are
shared alike, wherever they are. -/
def SameTensors (memory memory' : Memory) (tensors tensors' : List (Text × Tensor)) : Prop :=
  ∃ place : Nat → Nat,
    (tensors' = tensors.map fun named =>
      (named.1, { named.2 with storage := place named.2.storage })) ∧
    (∀ named ∈ tensors,
      memory'.buffer (place named.2.storage) = memory.buffer named.2.storage) ∧
    ∀ named ∈ tensors, ∀ named' ∈ tensors,
      place named.2.storage = place named'.2.storage → named.2.storage = named'.2.storage

variable {g : Graph} {uses : List StorageUse} {top : Nat} {v : Value} {w : Pickle.World} {m : Machine}
  {tensors : List (Text × Tensor)} {attributes : List (Text × Nat)}

theorem tensorIn_of_mem (maps : MapsNames g top tensors attributes) {named : Text × Tensor}
    (hn : named ∈ tensors) : g.TensorIn top named.2 := by
  obtain ⟨entries, hg, listed⟩ := maps
  obtain ⟨e, he, -, ht⟩ := exists_of_forall₂ listed.flip hn
  exact ⟨e.2, .single (Graph.holds_of_ordered hg e he).2, ht⟩

theorem stored_of_registered (restored : Restored g uses top v w m) {t : Tensor}
    (h : w.registered (storageNumber uses t))
    (within : t.requireWithin (g.memory.buffer t.storage).length = .ok ()) :
    Arena.Stored g.memory uses t := by
  obtain ⟨use, hn, key, storage, -⟩ := restored.exists_use h
  exact ⟨⟨use, hn, key, storage⟩, within⟩

theorem sameTensors_placed {a : Arena} {occurs : Tensor → Prop} {memory : Memory}
    (entered : Encoder.Entered occurs uses) (holds : a.Holds memory uses)
    (stored : ∀ named ∈ tensors, Arena.Stored memory uses named.2)
    (read : ∀ named ∈ tensors, Text.ofNat (storageNumber uses named.2) ∈ a.loaded.keys) :
    SameTensors memory a.memory tensors
      (tensors.map fun named => (named.1, a.placed uses named.2)) := by
  refine ⟨a.place uses, rfl, ?_, ?_⟩
  · intro named hn
    obtain ⟨use, hu, key, storage⟩ := (stored named hn).entered
    rw [Arena.place_eq, ← key, ← storage]
    apply holds.buffer_eq entered hu
    rw [key]
    exact read named hn
  · intro named hn named' hn' same
    obtain ⟨use, hu, key, storage⟩ := (stored named hn).entered
    obtain ⟨use', hu', key', storage'⟩ := (stored named' hn').entered
    rw [Arena.place_eq, Arena.place_eq] at same
    have keys : use.key = use'.key := by
      rw [key, key']
      exact (List.idxOf_inj (read named hn)).1 same
    rw [← storage, ← storage', eq_of_key entered hu hu' keys]

end Tensors

section RoundTrip

variable {config limits : Config} {g g' : Graph} {id top : Nat} {d : Graph.Dump}
  {tensors : List (Text × Tensor)} {attributes : List (Text × Nat)}

/-- An archive of tensors that can be saved is saved wherever it fits. -/
theorem ensures_save_storable {s : Stream} (healthy : s.Healthy) (ha : g.asOrdered id = .ok (top, g'))
    (maps : g'.MapsTensors top tensors attributes) (short : g'.ShortTexts top)
    (storable : ∀ named ∈ tensors, Storable g'.memory named.2)
    (alike : ∀ named ∈ tensors, ∀ named' ∈ tensors, named.2.storage = named'.2.storage →
      named.2.dtype = named'.2.dtype)
    (named : IsName config.archiveName) (batch : config.batchSize ≤ Encoder.batchLimit)
    (roomy : ((g'.stream config top).perform {}).2.Roomy)
    (fits : ∀ d, g.dump config id = .ok d →
      Writer.Fits config s.position (recordsOf config g'.memory d)) :
    (save config g id).Ensures s (fun _ t => t.Healthy) fun _ _ => False := by
  have can : Recoverable g' top tensors attributes := .of_plain maps (fun n hn => (storable n hn).whole)
    alike fun n hn => (storable n hn).fits
  have writable : g'.Writable (g'.TensorIn top) top := by
    apply maps.writable _ short
    intro n hn
    apply (storable n hn).canWrite (tensorIn_of_mem maps.entries hn)
    rintro t ⟨_, hr, hg⟩ same
    obtain ⟨n', hn', rfl⟩ := maps.mem_of_reaches hr hg
    exact alike n' hn' n hn same
  obtain ⟨d, hd⟩ := Graph.exists_dump ha writable batch roomy
  obtain ⟨_, _, e, ha', hs, hde⟩ := Graph.dump_eq_ok.1 hd
  cases ha.symm.trans ha'
  have entered : Encoder.Entered (g'.TensorIn top) d.storages :=
    hde ▸ entered_of_stream can.restorable hs
  have saves := ensures_save healthy hd named entered
  rw [← Graph.memory_asOrdered ha] at saves
  exact saves.mono (fun _ _ ⟨_, _, behind, _⟩ => behind.healthy) fun _ _ failed => failed.2 (fits d hd)

end RoundTrip

/-- Two views of one storage, with a version in the metadata. -/
def versioned : Graph where
  nodes := #[.ordered [(1, 2), (3, 4)] [(metadataName, 5)], .text "weight",
    .tensor { dtype := .float32, shape := [2], stride := [1], offset := 0, storage := 0 }, .text "last",
    .tensor { dtype := .float32, shape := [1], stride := [1], offset := 1, storage := 0 },
    .ordered [(6, 7)] [], .text "version", .tuple [8, 9], .int 1, .none]
  memory := ⟨[[0, 0, 128, 63, 0, 0, 0, 64]]⟩

/-- What can be seen of a dump: whether its stream is short, and its archive can be written from a
place on. -/
def isPlaced (config : Config) (memory : Memory) (start : Nat) (d : Graph.Dump) : Bool :=
  decide (d.bytes.length < 1000) &&
    ((recordsOf config memory d).foldlM (Writer.next? config) start).any (· < Stream.sizeLimit)

end Archive

end Checkpoint
