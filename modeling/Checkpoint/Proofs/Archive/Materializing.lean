import Checkpoint.Proofs.Archive.Decoding
import Checkpoint.Proofs.Archive.SavedDecoding

/-! Tensors of saved archives: each storage is read once, when a tensor first needs it, and tensors share
a buffer where their storages were one. -/

namespace Checkpoint.Archive

open Effect Pickle

namespace Arena

/-- What has been read of some storages, each under its key. -/
structure Holds (a : Arena) (memory : Memory) (uses : List StorageUse) : Prop where
  distinct : a.loaded.keys.Nodup
  held : ∀ key bytes, a.loaded.get? key = some bytes →
    ∃ use ∈ uses, use.key = key ∧ bytes = memory.buffer use.storage

theorem holds_of_unread {a : Arena} (h : a.loaded = {}) (memory : Memory) (uses : List StorageUse) :
    a.Holds memory uses := by
  constructor
  · rw [h]
    exact .nil
  · rw [h]
    nofun

/-- An arena in which more storages have been read, behind those that had been. -/
structure ReadOn (a b : Arena) : Prop where
  reader : b.reader = a.reader
  blobs : b.blobs = a.blobs
  keys : a.loaded.keys <+: b.loaded.keys

theorem ReadOn.refl (a : Arena) : a.ReadOn a := ⟨rfl, rfl, List.prefix_refl _⟩

theorem ReadOn.trans {a b c : Arena} (h : a.ReadOn b) (h' : b.ReadOn c) : a.ReadOn c :=
  ⟨h'.reader.trans h.reader, h'.blobs.trans h.blobs, h.keys.trans h'.keys⟩

theorem ReadOn.check_eq {a b : Arena} (h : a.ReadOn b) (t : TensorRef) : b.check t = a.check t := by
  rw [check, check, h.blobs]

theorem ReadOn.storageIndex_eq {a b : Arena} (h : a.ReadOn b) {key : Text}
    (read : key ∈ a.loaded.keys) : b.storageIndex key = a.storageIndex key :=
  (h.keys.idxOf_eq_of_mem read).symm

variable {a : Arena} {memory : Memory} {uses : List StorageUse} {tensors : Tensor → Prop}

theorem Holds.buffer_eq (h : a.Holds memory uses) (entered : Encoder.Entered tensors uses)
    {use : StorageUse} (hu : use ∈ uses) (read : use.key ∈ a.loaded.keys) :
    a.memory.buffer (a.storageIndex use.key) = memory.buffer use.storage := by
  obtain ⟨bytes, hb⟩ := Table.exists_get?_of_contains (Table.contains_iff_mem_keys.2 read)
  obtain ⟨use', hu', key, rfl⟩ := h.held _ _ hb
  obtain rfl := eq_of_key entered hu' hu key
  exact buffer_storageIndex hb

variable {r : Reader} {root : Text} {config : Config} {d : Graph.Dump} {content : Bytes}
  {u : Stream}

/-- A storage that is registered is read as it was written. -/
theorem ensures_storage (reads : a.reader.Reads root (recordsOf config memory d) content)
    (order : a.reader.byteOrder = .host) (entered : Encoder.Entered tensors d.storages)
    (holds : a.Holds memory d.storages) {use : StorageUse} (hu : use ∈ d.storages) {blob : Blob}
    (registered : a.blobs.get? use.key = some blob) (has : u.Has content)
    {Q : Bytes × Arena → Stream → Prop} {E : Error → Stream → Prop}
    (hq : ∀ b t, t.Has content → a.ReadOn b → b.Holds memory d.storages →
      use.key ∈ b.loaded.keys → Q (memory.buffer use.storage, b) t) :
    (a.storage use.key).Ensures u Q E := by
  unfold Arena.storage
  rw [registered]
  dsimp only
  split
  · next bytes hb =>
    -- A key is that of one storage, so what is held under it is this one.
    obtain ⟨use', hu', key, rfl⟩ := holds.held _ _ hb
    obtain rfl := eq_of_key entered hu' hu key
    have read := Table.contains_eq_isSome a.loaded use'.key
    rw [hb] at read
    exact (ensures_pure _).2 (hq a u has (.refl a) holds (Table.contains_iff_mem_keys.1 read))
  · next unread =>
    have absent : ¬ a.loaded.contains use.key = true := by
      rw [(Table.get?_eq_none_iff ..).1 unread]
      nofun
    have keys : (a.loaded.insert use.key (memory.buffer use.storage)).keys =
        a.loaded.keys ++ [use.key] := by
      rw [Table.keys_insert, if_neg absent]
    rw [ensures_bind]
    apply reads.ensures_readStorage (mem_recordsOf.2 (.inr (.inr (.inr ⟨use, hu, rfl, rfl⟩)))) has
    intro t ht
    rw [if_pos order]
    refine (ensures_pure _).2 (hq _ t ht ⟨rfl, rfl, ?_⟩ ⟨?_, ?_⟩ ?_)
    · change _ <+: Table.keys (a.loaded.insert _ _)
      rw [keys]
      exact List.prefix_append _ _
    · exact Table.nodup_keys_insert holds.distinct _ _
    · intro key bytes hb
      change (a.loaded.insert _ _).get? key = some bytes at hb
      by_cases same : use.key = key
      · rw [← same, Table.get?_insert_self] at hb
        exact ⟨use, hu, same, (Option.some.inj hb).symm⟩
      · rw [Table.get?_insert_of_ne same] at hb
        exact holds.held key bytes hb
    · change _ ∈ Table.keys (a.loaded.insert _ _)
      rw [keys]
      exact List.mem_append_right _ (List.mem_singleton_self _)

/-- Where a storage of a stream has been read to. -/
def place (b : Arena) (uses : List StorageUse) (storage : Nat) : Nat :=
  b.storageIndex (Text.ofNat (uses.findIdx (·.storage == storage)))

/-- The same tensor over the storage that has been read for it. -/
def placed (b : Arena) (uses : List StorageUse) (t : Tensor) : Tensor :=
  { t with storage := b.place uses t.storage }

theorem place_eq (b : Arena) (uses : List StorageUse) (t : Tensor) :
    b.place uses t.storage = b.storageIndex (Text.ofNat (storageNumber uses t)) :=
  rfl

/-- Whether a tensor's storage is among those of a stream, and holds it. -/
structure Stored (memory : Memory) (uses : List StorageUse) (t : Tensor) : Prop where
  entered : ∃ use ∈ uses, use.key = Text.ofNat (storageNumber uses t) ∧ use.storage = t.storage
  within : t.requireWithin (memory.buffer t.storage).length = .ok ()

/-- The tensor that a view was written for is made again. -/
theorem ensures_materialize (reads : a.reader.Reads root (recordsOf config memory d) content)
    (order : a.reader.byteOrder = .host) (entered : Encoder.Entered tensors d.storages)
    (holds : a.Holds memory d.storages) {t : Tensor} (stored : Stored memory d.storages t)
    (checked : a.check (viewOf t (storageNumber d.storages t)) = .ok ()) (has : u.Has content)
    {Q : Tensor × Arena → Stream → Prop} {E : Error → Stream → Prop}
    (hq : ∀ b u, u.Has content → a.ReadOn b → b.Holds memory d.storages →
      Text.ofNat (storageNumber d.storages t) ∈ b.loaded.keys → Q (b.placed d.storages t, b) u) :
    (a.materialize (viewOf t (storageNumber d.storages t))).Ensures u Q E := by
  obtain ⟨use, hu, key, storage⟩ := stored.entered
  obtain ⟨blob, found, -, -⟩ := check_eq_ok checked
  have registered : a.blobs.get? use.key = some blob := by
    rw [key]
    exact found
  have natural (numbers : List Nat) : (numbers.map Int.ofNat).map Int.toNat = numbers := by
    rw [List.map_map]
    exact List.map_id numbers
  unfold materialize
  rw [checked, ensures_bind, ensures_ofExcept_ok, ensures_bind]
  change Effect.Ensures (a.storage (Text.ofNat (storageNumber d.storages t))) _ _ _
  rw [← key] at hq ⊢
  apply ensures_storage reads order entered holds hu registered has
  intro b u hu readOn holds' read
  have made : ({
      dtype := t.dtype
      shape := (t.shape.map Int.ofNat).map Int.toNat
      stride := (t.stride.map Int.ofNat).map Int.toNat
      offset := (t.offset : Int).toNat
      storage := b.storageIndex (Text.ofNat (storageNumber d.storages t)) } : Tensor) =
      b.placed d.storages t := by
    rw [natural, natural]
    rfl
  have within : (b.placed d.storages t).requireWithin (memory.buffer use.storage).length = .ok () :=
    storage ▸ stored.within
  dsimp only [viewOf]
  rw [made, within, ensures_bind, ensures_ofExcept_ok]
  exact (ensures_pure _).2 (hq b u hu readOn holds' read)

/-- The tensors of all views are made again, in order. -/
theorem ensures_materializeAll {named : List (Text × Tensor)}
    (reads : a.reader.Reads root (recordsOf config memory d) content)
    (order : a.reader.byteOrder = .host) (entered : Encoder.Entered tensors d.storages)
    (holds : a.Holds memory d.storages) (stored : ∀ n ∈ named, Stored memory d.storages n.2)
    (checked : ∀ n ∈ named, a.check (viewOf n.2 (storageNumber d.storages n.2)) = .ok ())
    (has : u.Has content) {Q : List (Text × Tensor) × Arena → Stream → Prop}
    {E : Error → Stream → Prop}
    (hq : ∀ b u, u.Has content → a.ReadOn b → b.Holds memory d.storages →
      (∀ n ∈ named, Text.ofNat (storageNumber d.storages n.2) ∈ b.loaded.keys) →
      Q (named.map fun n => (n.1, b.placed d.storages n.2), b) u) :
    (a.materializeAll (viewsOf d.storages named)).Ensures u Q E := by
  induction named generalizing a u Q with
  | nil => exact (ensures_pure _).2 (hq a u has (.refl a) holds nofun)
  | cons n named ih =>
    obtain ⟨first, stored⟩ := List.forall_mem_cons.1 stored
    obtain ⟨fits, checked⟩ := List.forall_mem_cons.1 checked
    simp only [viewsOf, List.map_cons, materializeAll]
    rw [ensures_bind]
    apply ensures_materialize reads order entered holds first fits has
    intro b u hu readOn holds' read
    rw [ensures_bind]
    apply ih (readOn.reader.symm ▸ reads) (readOn.reader.symm ▸ order) holds' stored
    · intro n' hn'
      rw [readOn.check_eq]
      exact checked n' hn'
    · exact hu
    · intro c u hu readOn' holds'' others
      -- The storages of the others go behind this one, which keeps its place.
      have place : b.placed d.storages n.2 = c.placed d.storages n.2 := by
        rw [placed, placed, place_eq, place_eq, readOn'.storageIndex_eq read]
      rw [ensures_pure, place]
      refine hq c u hu (readOn.trans readOn') holds'' ?_
      exact List.forall_mem_cons.2 ⟨readOn'.keys.subset read, others⟩

end Arena

end Checkpoint.Archive
