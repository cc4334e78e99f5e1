import Checkpoint.Proofs.Archive.Decoding
import Checkpoint.Proofs.Archive.Records
import Checkpoint.Proofs.Archive.SavedDecoding
import Checkpoint.Proofs.Bytes

/-! Loading an archive is decoding it and then reading the storages that its views are of, each once and in
the order of their first use. -/

namespace Checkpoint

/-- In an order other than that of the host each component of an element is turned around. -/
def DType.placeIn (d : DType) (order : Archive.ByteOrder) (i : Nat) : Nat :=
  if order = .host then i
  else i / d.componentSize * d.componentSize + (d.componentSize - 1 - i % d.componentSize)

theorem DType.componentSize_dvd (d : DType) : d.componentSize ∣ d.size := by
  cases d <;> decide

end Checkpoint

/-! ### Views as tensors -/

namespace Checkpoint.Pickle.TensorRef

/-- The tensor of a view over a storage. -/
def onStorage (t : TensorRef) (storage : Nat) : Tensor where
  dtype := t.dtype
  shape := t.shape.map Int.toNat
  stride := t.stride.map Int.toNat
  offset := t.offset.toNat
  storage := storage

/-- Whether there is a tensor for a view: its numbers are machine integers, and so are the products that
are made of its sizes. -/
def Expressible (t : TensorRef) : Prop :=
  Shape.require ((t.onStorage 0).offset :: (t.onStorage 0).shape ++ (t.onStorage 0).stride) (t.onStorage 0).shape = .ok ()

instance (t : TensorRef) : Decidable t.Expressible :=
  inferInstanceAs (Decidable (_ = _))

theorem map_ofNat_toNat {numbers : List Int} (natural : ∀ n ∈ numbers, 0 ≤ n) :
    (numbers.map Int.toNat).map Int.ofNat = numbers := by
  rw [List.map_map]
  exact (List.map_congr_left fun n hn => Int.toNat_of_nonneg (natural n hn)).trans (List.map_id _)

variable {t : TensorRef} {count : Nat}

theorem FitsIn.reach_onStorage_le (fits : t.FitsIn count) (within : t.extent ≤ count) (storage : Nat) :
    (t.onStorage storage).reach ≤ count := by
  have same : (viewOf (t.onStorage storage) 0).extent = t.extent := by
    simp only [extent, numel, viewOf, onStorage, map_ofNat_toNat fits.shape_nonneg,
      map_ofNat_toNat fits.stride_nonneg, Int.toNat_of_nonneg fits.offset_nonneg]
    rfl
  rw [← same, extent_viewOf] at within
  split at within
  · next empty =>
    rw [Tensor.reach, if_pos empty]
    exact Nat.zero_le count
  · exact_mod_cast within

end Checkpoint.Pickle.TensorRef

/-! ### Storages in the order of the host -/

namespace Checkpoint.Archive

open Effect Pickle

/-- The same elements, in an order of bytes and in that of the host. -/
structure SameElements (order : ByteOrder) (d : DType) (raw bytes : Bytes) : Prop where
  length : bytes.length = raw.length
  place : ∀ i < raw.length, bytes[i]? = raw[d.placeIn order i]?

/-- What is kept of a storage that has been read; without a whole number of elements there is nothing. -/
def inHostOrder? (order : ByteOrder) (d : DType) (raw : Bytes) : Option Bytes :=
  if order = .host then some raw else d.byteswap? raw

section ByteOrder

variable {order : ByteOrder} {d : DType} {raw bytes : Bytes}

theorem sameElements_of_inHostOrder (h : inHostOrder? order d raw = some bytes) :
    SameElements order d raw bytes := by
  unfold inHostOrder? at h
  split at h
  · next host =>
    cases h
    exact ⟨rfl, fun i _ => by rw [DType.placeIn, if_pos host]⟩
  · next foreign =>
    unfold DType.byteswap? at h
    split at h
    · next single =>
      cases h
      refine ⟨rfl, fun i _ => ?_⟩
      rw [DType.placeIn, if_neg foreign, single, Nat.div_one, Nat.mod_one, Nat.mul_one]
      rfl
    · split at h
      · next whole =>
        cases h
        refine ⟨Bytes.length_reverseGroups .., fun i hi => ?_⟩
        rw [DType.placeIn, if_neg foreign, Bytes.getElem?_reverseGroups whole hi]
      · cases h

theorem exists_inHostOrder_of_components (order : ByteOrder) (components : raw.length % d.componentSize = 0) :
    ∃ bytes, inHostOrder? order d raw = some bytes := by
  unfold inHostOrder? DType.byteswap?
  rw [if_pos components]
  split
  · exact ⟨raw, rfl⟩
  · split
    · exact ⟨raw, rfl⟩
    · exact ⟨raw.reverseGroups d.componentSize, rfl⟩

theorem exists_inHostOrder (order : ByteOrder) (whole : d.size ∣ raw.length) :
    ∃ bytes, inHostOrder? order d raw = some bytes :=
  exists_inHostOrder_of_components order (Nat.mod_eq_zero_of_dvd (d.componentSize_dvd.trans whole))

end ByteOrder

/-- The keys of the storages that views are of. -/
def keysOf (refs : List (Text × TensorRef)) : List Text := refs.map (·.2.storageKey)

/-- What has been read of storages, under the names of their members. -/
def storageRecords (reads : List (Text × Bytes)) : List (Text × Bytes) :=
  reads.map fun read => (storageRecord read.1, read.2)

/-- The keys that have not been seen, in the order of their first use. -/
def unseen (seen keys : List Text) : List Text := (keys.removeAll seen).eraseDups

theorem unseen_nil (keys : List Text) : unseen [] keys = keys.eraseDups := by
  rw [unseen, List.removeAll, List.filter_eq_self.2 (by simp)]

theorem mem_unseen {seen keys : List Text} {key : Text} : key ∈ unseen seen keys ↔ key ∈ keys ∧ key ∉ seen := by
  simp [unseen, List.mem_eraseDups, List.removeAll]

theorem unseen_singleton (seen : List Text) (key : Text) :
    unseen seen [key] = if key ∈ seen then [] else [key] := by
  by_cases h : key ∈ seen <;> simp [unseen, List.removeAll, h, List.eraseDups_cons]

theorem unseen_append (seen keys others : List Text) : unseen seen (keys ++ others) =
    unseen seen keys ++ unseen (seen ++ unseen seen keys) others := by
  have first : (keys ++ others).removeAll seen = keys.removeAll seen ++ others.removeAll seen :=
    List.filter_append ..
  have behind : (others.removeAll seen).removeAll (keys.removeAll seen) =
      others.removeAll (seen ++ unseen seen keys) := by
    simp only [List.removeAll, List.filter_filter]
    apply List.filter_congr
    intro key _
    have listed : (keys.removeAll seen).elem key = (unseen seen keys).elem key := by
      rw [Bool.eq_iff_iff, List.elem_iff, List.elem_iff, unseen, List.mem_eraseDups]
    rw [← List.removeAll, listed]
    simp only [List.elem_eq_mem, List.mem_append, Bool.decide_or, Bool.not_or, Bool.and_comm]
  rw [unseen, first, List.eraseDups_append, behind]
  rfl

theorem nodup_unseen (seen keys : List Text) : (unseen seen keys).Nodup := by
  induction keys generalizing seen with
  | nil => exact .nil
  | cons key keys ih =>
    rw [← List.singleton_append, unseen_append]
    refine List.nodup_append.2 ⟨?_, ih _, ?_⟩
    · rw [unseen_singleton]
      split
      · exact .nil
      · exact List.nodup_singleton key
    · rintro k first _ rest rfl
      exact (mem_unseen.1 rest).2 (List.mem_append_right seen first)

namespace Arena

/-- What a storage is fetched as: what is held of it, or else what its member is read as. -/
inductive Fetches (a : Arena) (key : Text) :
    Bytes → Arena → List (Text × Bytes) → Stream → Stream → Prop
  | held {bytes : Bytes} (found : a.loaded.get? key = some bytes) (s : Stream) :
    a.Fetches key bytes a [] s s
  | read {blob : Blob} {raw bytes : Bytes} {s t : Stream} (unread : a.loaded.get? key = none)
    (registered : a.blobs.get? key = some blob)
    (read : (a.reader.readRecord (storageRecord key)).perform s = (.ok raw, t))
    (ordered : inHostOrder? a.reader.byteOrder blob.dtype raw = some bytes) :
    a.Fetches key bytes { a with loaded := a.loaded.insert key bytes } [(key, raw)] s t

/-- What is kept of a registered storage that has been read. -/
def Keeps (a : Arena) (read kept : Text × Bytes) : Prop :=
  kept.1 = read.1 ∧ ∃ blob, a.blobs.get? read.1 = some blob ∧
    inHostOrder? a.reader.byteOrder blob.dtype read.2 = some kept.2

/-- An arena in which more storages have been read, which are kept behind those that had been. -/
structure Fills (a b : Arena) (reads : List (Text × Bytes)) : Prop where
  reader : b.reader = a.reader
  blobs : b.blobs = a.blobs
  loaded : ∃ added, b.loaded.entries = a.loaded.entries ++ added ∧ List.Forall₂ a.Keeps reads added

variable {a b c : Arena} {key : Text} {bytes : Bytes} {reads reads' : List (Text × Bytes)}
  {refs : List (Text × TensorRef)} {s t u : Stream}

theorem Fills.refl (a : Arena) : a.Fills a [] := ⟨rfl, rfl, [], (List.append_nil _).symm, .nil⟩

theorem Fills.trans (h : a.Fills b reads) (h' : b.Fills c reads') : a.Fills c (reads ++ reads') := by
  obtain ⟨added, entries, kept⟩ := h.loaded
  obtain ⟨added', entries', kept'⟩ := h'.loaded
  refine ⟨h'.reader.trans h.reader, h'.blobs.trans h.blobs, added ++ added', ?_, ?_⟩
  · rw [entries', entries, List.append_assoc]
  · apply List.rel_append kept
    have same : b.Keeps = a.Keeps := by
      funext read kept
      rw [Keeps, Keeps, h.reader, h.blobs]
    exact same ▸ kept'

theorem Fills.keys (h : a.Fills b reads) : b.loaded.keys = a.loaded.keys ++ reads.map Prod.fst := by
  obtain ⟨added, entries, kept⟩ := h.loaded
  rw [Table.keys, entries, List.map_append, map_eq_map_of_forall₂ kept fun _ _ keeps => keeps.1.symm]
  rfl

theorem Fills.sized (h : a.Fills b reads) (sized : a.Sized) : b.Sized := by
  rw [Sized, h.blobs, h.reader]
  exact sized

theorem Fills.check_eq (h : a.Fills b reads) (t : TensorRef) : b.check t = a.check t := by
  rw [check, check, h.blobs]

theorem Fills.storageIndex_eq (h : a.Fills b reads) (read : key ∈ a.loaded.keys) :
    b.storageIndex key = a.storageIndex key :=
  ((h.keys ▸ List.prefix_append _ _ : a.loaded.keys <+: b.loaded.keys).idxOf_eq_of_mem read).symm

theorem perform_inHostOrder {α : Type} {order : ByteOrder} {d : DType} {raw : Bytes}
    {f : Bytes → Action α} {x : α} :
    Effect.perform (if order = .host then do f (← pure raw)
      else match d.byteswap? raw with
        | some bytes => do f (← pure bytes)
        | none => do f (← throw .unevenBuffer)) s = (.ok x, t) ↔
      ∃ bytes, inHostOrder? order d raw = some bytes ∧ (f bytes).perform s = (.ok x, t) := by
  unfold inHostOrder?
  split
  · rw [pure_bind]
    simp
  · cases d.byteswap? raw with
    | some bytes => simp
    | none =>
      constructor
      · nofun
      · nofun

/-- A registered storage of the recorded size is fetched. -/
theorem perform_storage_eq_ok {blob : Blob} (registered : a.blobs.get? key = some blob) (sized : a.Sized) :
    (a.storage key).perform s = (.ok (bytes, b), t) ↔ ∃ reads, a.Fetches key bytes b reads s t := by
  have present : a.reader.requireStorage key = .ok () := by
    obtain ⟨size, recorded, -⟩ := sized key blob registered
    obtain ⟨_, present, -⟩ := bind_eq_ok.1 recorded
    exact present
  unfold storage
  rw [registered]
  dsimp only
  cases found : a.loaded.get? key with
  | some kept =>
    constructor
    · intro h
      cases h
      exact ⟨[], .held found s⟩
    · rintro ⟨reads, fetched⟩
      cases fetched with
      | held found' =>
        obtain rfl := Option.some.inj (found.symm.trans found')
        rfl
      | read unread => cases found.symm.trans unread
  | none =>
    have readAll {raw : Bytes} {u : Stream} : (a.reader.readStorage key).perform s = (.ok raw, u) ↔
        (a.reader.readRecord (storageRecord key)).perform s = (.ok raw, u) := by
      rw [Reader.readStorage, present]
      rfl
    constructor
    · intro h
      obtain ⟨raw, u, read, h⟩ := perform_bind_eq_ok.1 h
      obtain ⟨kept, ordered, h⟩ := perform_inHostOrder.1 h
      cases h
      exact ⟨[(key, raw)], .read found registered (readAll.1 read) ordered⟩
    · rintro ⟨reads, fetched⟩
      cases fetched with
      | held found' => cases found.symm.trans found'
      | @read blob' raw _ _ _ _ registered' read ordered =>
        obtain rfl := Option.some.inj (registered.symm.trans registered')
        exact perform_bind_eq_ok.2 ⟨raw, t, readAll.2 read, perform_inHostOrder.2 ⟨bytes, ordered, rfl⟩⟩

theorem perform_materialize_eq_ok {ref : TensorRef} {tensor : Tensor} (sized : a.Sized) :
    (a.materialize ref).perform s = (.ok (tensor, b), t) ↔
      a.check ref = .ok () ∧ ∃ bytes reads, a.Fetches ref.storageKey bytes b reads s t ∧
        tensor = ref.onStorage (b.storageIndex ref.storageKey) ∧
        tensor.requireWithin bytes.length = .ok () := by
  constructor
  · intro h
    unfold materialize at h
    obtain ⟨_, s', first, second⟩ := perform_bind_eq_ok.1 h
    obtain ⟨checked, rfl⟩ := perform_ofExcept_eq_ok.1 first
    obtain ⟨⟨bytes, c⟩, u, fetched, third⟩ := perform_bind_eq_ok.1 second
    obtain ⟨_, u', fourth, last⟩ := perform_bind_eq_ok.1 third
    obtain ⟨within, rfl⟩ := perform_ofExcept_eq_ok.1 fourth
    cases last
    obtain ⟨blob, registered, -, -⟩ := check_eq_ok checked
    obtain ⟨reads, fetched⟩ := (perform_storage_eq_ok registered sized).1 fetched
    exact ⟨checked, bytes, reads, fetched, rfl, within⟩
  · rintro ⟨checked, bytes, reads, fetched, rfl, within⟩
    obtain ⟨blob, registered, -, -⟩ := check_eq_ok checked
    refine perform_bind_eq_ok.2 ⟨(), s, perform_ofExcept_eq_ok.2 ⟨checked, rfl⟩, ?_⟩
    refine perform_bind_eq_ok.2 ⟨(bytes, b), t, (perform_storage_eq_ok registered sized).2 ⟨reads, fetched⟩, ?_⟩
    exact perform_bind_eq_ok.2 ⟨(), t, perform_ofExcept_eq_ok.2 ⟨within, rfl⟩, rfl⟩

theorem mem_keys_loaded : key ∈ a.loaded.keys ↔ (a.loaded.get? key).isSome = true := by
  rw [← Table.contains_eq_isSome, Table.contains_iff_mem_keys]

section Fetches

variable (h : a.Fetches key bytes b reads s t)
include h

theorem Fetches.readsRecords : a.reader.ReadsRecords (storageRecords reads) s t := by
  cases h with
  | held => exact .nil s
  | read _ _ read => exact .cons read (.nil t)

theorem Fetches.reads_eq : reads.map Prod.fst = unseen a.loaded.keys [key] := by
  rw [unseen_singleton]
  cases h with
  | held found => exact (if_pos (mem_keys_loaded.2 (found ▸ rfl))).symm
  | read unread => exact (if_neg fun seen => by simpa [unread] using mem_keys_loaded.1 seen).symm

theorem Fetches.fills : a.Fills b reads := by
  cases h with
  | held => exact .refl a
  | @read blob raw _ _ _ unread registered read ordered =>
    refine ⟨rfl, rfl, [(key, bytes)], ?_, .cons ⟨rfl, blob, registered, ordered⟩ .nil⟩
    exact Table.entries_insert_of_absent ((Table.get?_eq_none_iff ..).1 unread) bytes

theorem Fetches.get?_eq : b.loaded.get? key = some bytes := by
  cases h with
  | held found => exact found
  | read => exact Table.get?_insert_self ..

end Fetches

theorem keysOf_cons (named : Text × TensorRef) (refs : List (Text × TensorRef)) :
    keysOf (named :: refs) = [named.2.storageKey] ++ keysOf refs := rfl

/-- Views that have been made into tensors are each over the place of their storage, and the storages that
had not been read have been, in the order of their first use. -/
theorem reads_of_materializeAll {tensors : List (Text × Tensor)} (sized : a.Sized)
    (h : (a.materializeAll refs).perform s = (.ok (tensors, b), t)) :
    ∃ reads, a.Fills b reads ∧ a.reader.ReadsRecords (storageRecords reads) s t ∧
      reads.map Prod.fst = unseen a.loaded.keys (keysOf refs) ∧
      (tensors = refs.map fun named => (named.1, named.2.onStorage (b.storageIndex named.2.storageKey))) ∧
      ∀ named ∈ refs, named.2.Expressible := by
  induction refs generalizing a tensors s with
  | nil =>
    cases h
    exact ⟨[], .refl _, .nil _, rfl, rfl, nofun⟩
  | cons named refs ih =>
    obtain ⟨⟨tensor, c⟩, u, first, h⟩ := perform_bind_eq_ok.1 h
    obtain ⟨⟨others, d⟩, v, rest, h⟩ := perform_bind_eq_ok.1 h
    cases h
    obtain ⟨-, bytes, reads, fetched, rfl, within⟩ := (perform_materialize_eq_ok sized).1 first
    have fills := fetched.fills
    obtain ⟨reads', fills', records, keys, rfl, expressible⟩ := ih (fills.sized sized) rest
    refine ⟨reads ++ reads', fills.trans fills', ?_, ?_, ?_, ?_⟩
    · rw [fills.reader] at records
      rw [storageRecords, List.map_append]
      exact fetched.readsRecords.append records
    · rw [List.map_append, keys, fills.keys, fetched.reads_eq, keysOf_cons, unseen_append]
    · -- The storages of the others go behind this one, which keeps its place.
      have seen : named.2.storageKey ∈ c.loaded.keys := by
        rw [mem_keys_loaded, fetched.get?_eq]
        rfl
      rw [List.map_cons, fills'.storageIndex_eq seen]
    · obtain ⟨_, expressed, -⟩ := bind_eq_ok.1 within
      exact List.forall_mem_cons.2 ⟨expressed, expressible⟩

/-- What has been read of storages is all of them. -/
def Whole (a : Arena) : Prop :=
  ∀ key bytes, a.loaded.get? key = some bytes → a.reader.storageSize key = .ok bytes.length

theorem Fetches.whole (h : a.Fetches key bytes b reads s t) (whole : a.Whole)
    (recorded : ∀ read ∈ reads, a.reader.storageSize read.1 = .ok read.2.length) : b.Whole := by
  cases h with
  | held => exact whole
  | @read blob raw _ _ _ unread registered read ordered =>
    intro key' bytes' found
    change (a.loaded.insert key bytes).get? key' = some bytes' at found
    by_cases same : key = key'
    · subst same
      rw [Table.get?_insert_self] at found
      obtain rfl := Option.some.inj found
      rw [(sameElements_of_inHostOrder ordered).length]
      exact recorded _ (List.mem_singleton_self _)
    · rw [Table.get?_insert_of_ne same] at found
      exact whole key' bytes' found

/-- Of a registered storage that is read whole there is a whole number of elements. -/
theorem size_dvd_of_sized {blob : Blob} {raw : Bytes} (sized : a.Sized)
    (registered : a.blobs.get? key = some blob) (recorded : a.reader.storageSize key = .ok raw.length) :
    blob.dtype.size ∣ raw.length := by
  obtain ⟨size, measured, product⟩ := sized key blob registered
  obtain rfl : raw.length = size := Except.ok.inj (recorded.symm.trans measured)
  obtain ⟨count, -, elements⟩ := exists_count product
  exact ⟨count, elements.trans (Nat.mul_comm ..)⟩

/-- A registered storage can be fetched where its member, unless it has been read, is read back. -/
theorem exists_fetches {blob : Blob} (registered : a.blobs.get? key = some blob) (sized : a.Sized)
    (keys : reads.map Prod.fst = unseen a.loaded.keys [key])
    (records : a.reader.ReadsRecords (storageRecords reads) s t)
    (recorded : ∀ read ∈ reads, a.reader.storageSize read.1 = .ok read.2.length) :
    ∃ bytes b, a.Fetches key bytes b reads s t := by
  rw [unseen_singleton] at keys
  cases found : a.loaded.get? key with
  | some bytes =>
    rw [if_pos (mem_keys_loaded.2 (found ▸ rfl)), List.map_eq_nil_iff] at keys
    subst keys
    cases records
    exact ⟨bytes, a, .held found s⟩
  | none =>
    rw [if_neg fun seen => by simpa [found] using mem_keys_loaded.1 seen, List.map_eq_singleton_iff] at keys
    obtain ⟨⟨_, raw⟩, rfl, rfl⟩ := keys
    have whole := size_dvd_of_sized sized registered (recorded _ (List.mem_singleton_self _))
    obtain ⟨bytes, ordered⟩ := exists_inHostOrder a.reader.byteOrder whole
    cases records with
    | cons read rest =>
      cases rest
      exact ⟨bytes, _, .read found registered read ordered⟩

/-- A view that has been checked fits what is read of its storage. -/
theorem requireWithin_onStorage {ref : TensorRef} (sized : a.Sized) (checked : a.check ref = .ok ())
    (expressible : ref.Expressible) (recorded : a.reader.storageSize ref.storageKey = .ok bytes.length)
    (storage : Nat) : (ref.onStorage storage).requireWithin bytes.length = .ok () := by
  obtain ⟨blob, registered, type, fits⟩ := check_eq_ok checked
  obtain ⟨size, sized, product⟩ := sized _ _ registered
  obtain rfl : bytes.length = size := Except.ok.inj (recorded.symm.trans sized)
  obtain ⟨count, number, length⟩ := exists_count product
  rw [number] at fits
  have reach := (fitsIn_of_checkView fits).reach_onStorage_le (extent_le_of_checkView fits) storage
  have within : (ref.onStorage storage).reach * ref.dtype.size ≤ bytes.length := by
    rw [length, type]
    exact Nat.mul_le_mul_right _ reach
  refine bind_eq_ok.2 ⟨(), expressible, ?_⟩
  exact if_neg fun h => Nat.not_lt.2 within h.2

/-- Where the storages that have not been read are read back, all views can be made into tensors. -/
theorem exists_materializeAll (sized : a.Sized) (whole : a.Whole)
    (checked : ∀ named ∈ refs, a.check named.2 = .ok ())
    (expressible : ∀ named ∈ refs, named.2.Expressible)
    (keys : reads.map Prod.fst = unseen a.loaded.keys (keysOf refs))
    (records : a.reader.ReadsRecords (storageRecords reads) s t)
    (recorded : ∀ read ∈ reads, a.reader.storageSize read.1 = .ok read.2.length) :
    ∃ found, (a.materializeAll refs).perform s = (.ok found, t) := by
  induction refs generalizing a reads s with
  | nil =>
    obtain rfl := List.map_eq_nil_iff.1 keys
    cases records
    exact ⟨([], a), rfl⟩
  | cons named refs ih =>
    obtain ⟨fits, checked⟩ := List.forall_mem_cons.1 checked
    obtain ⟨expressed, expressible⟩ := List.forall_mem_cons.1 expressible
    rw [keysOf_cons, unseen_append] at keys
    obtain ⟨first, rest, rfl, head, tail⟩ := List.map_eq_append_iff.1 keys
    rw [storageRecords, List.map_append] at records
    obtain ⟨u, now, later⟩ := Reader.readsRecords_append.1 records
    obtain ⟨sizes, sizes'⟩ := List.forall_mem_append.1 recorded
    obtain ⟨blob, registered, -, -⟩ := check_eq_ok fits
    obtain ⟨bytes, b, fetched⟩ := exists_fetches registered sized head now sizes
    have fills := fetched.fills
    have whole' := fetched.whole whole sizes
    have size := whole' _ _ fetched.get?_eq
    rw [fills.reader] at size
    have made : (a.materialize named.2).perform s =
        (.ok (named.2.onStorage (b.storageIndex named.2.storageKey), b), u) :=
      (perform_materialize_eq_ok sized).2
        ⟨fits, bytes, first, fetched, rfl, requireWithin_onStorage sized fits expressed size _⟩
    obtain ⟨⟨tensors, c⟩, others⟩ := ih (fills.sized sized) whole'
      (fun named hn => (fills.check_eq _).trans (checked named hn)) expressible
      (by rw [tail, fills.keys, fetched.reads_eq]) (fills.reader.symm ▸ later) (fills.reader.symm ▸ sizes')
    exact ⟨_, perform_bind_eq_ok.2 ⟨_, _, made, perform_bind_eq_ok.2 ⟨_, _, others, rfl⟩⟩⟩

end Arena

/-! ### Archives -/

/-- Whether the members of storages are read back, one after the other, at their recorded sizes. -/
def Reader.ReadsBack (r : Reader) (keys : List Text) (s t : Stream) : Prop :=
  ∃ reads, reads.map Prod.fst = keys ∧ r.ReadsRecords (storageRecords reads) s t ∧
    ∀ read ∈ reads, r.storageSize read.1 = .ok read.2.length

/-- Reads the members of storages back. -/
def Reader.readBack (r : Reader) : List Text → Action Unit
  | [] => return
  | key :: keys => do
    let raw ← r.readRecord (storageRecord key)
    let size ← Effect.ofExcept (r.storageSize key)
    if raw.length = size then r.readBack keys else throw .unevenBuffer

theorem Reader.readsBack_of_perform {r : Reader} {keys : List Text} {s t : Stream}
    (h : (r.readBack keys).perform s = (.ok (), t)) : r.ReadsBack keys s t := by
  induction keys generalizing s with
  | nil =>
    cases h
    exact ⟨[], rfl, .nil _, nofun⟩
  | cons key keys ih =>
    obtain ⟨raw, u, read, rest⟩ := perform_bind_eq_ok.1 h
    obtain ⟨size, v, measured, last⟩ := perform_bind_eq_ok.1 rest
    obtain ⟨recorded, rfl⟩ := perform_ofExcept_eq_ok.1 measured
    split at last
    · next same =>
      obtain ⟨reads, rfl, records, sizes⟩ := ih last
      exact ⟨(key, raw) :: reads, rfl, .cons read records, List.forall_mem_cons.2 ⟨same ▸ recorded, sizes⟩⟩
    · cases last

/-- How a view is loaded: under its name and with its numbers, over what its member holds. -/
structure LoadedAs (r : Reader) (reads : List (Text × Bytes)) (memory : Memory)
    (view : Text × TensorRef) (named : Text × Tensor) : Prop where
  name : named.1 = view.1
  dtype : named.2.dtype = view.2.dtype
  shape : named.2.shape.map Int.ofNat = view.2.shape
  stride : named.2.stride.map Int.ofNat = view.2.stride
  offset : (named.2.offset : Int) = view.2.offset
  storage : ∃ raw, (view.2.storageKey, raw) ∈ reads ∧
    SameElements r.byteOrder view.2.dtype raw (memory.buffer named.2.storage)

/-- A state that has been loaded of what was decoded, after reads of storages. -/
structure Loads (r : Reader) (d : Decoded) (reads : List (Text × Bytes)) (state : StateDict) : Prop where
  tensors : List.Forall₂ (LoadedAs r reads state.memory) d.refs state.tensors
  shared : ∀ p ∈ d.refs.zip state.tensors, ∀ q ∈ d.refs.zip state.tensors,
    p.2.2.storage = q.2.2.storage ↔ p.1.2.storageKey = q.1.2.storageKey
  metadata : state.metadata = d.givenMetadata
  once : (reads.map Prod.fst).Nodup
  needed : reads.map Prod.fst = (keysOf d.refs).eraseDups

section Load

variable {config : Config} {s t u : Stream} {state : StateDict} {d : Decoded}

theorem perform_decode_eq_ok : (decode config).perform s = (.ok d, t) ↔ ∃ r s₀ arena,
    Reader.openArchive.perform s = (.ok r, s₀) ∧ (r.decode config).perform s₀ = (.ok (d, arena), t) := by
  constructor
  · intro h
    obtain ⟨r, s₀, opened, rest⟩ := perform_bind_eq_ok.1 h
    obtain ⟨⟨_, arena⟩, u, decoded, last⟩ := perform_bind_eq_ok.1 rest
    cases last
    exact ⟨r, s₀, arena, opened, decoded⟩
  · rintro ⟨r, s₀, arena, opened, decoded⟩
    exact perform_bind_eq_ok.2 ⟨r, s₀, opened, perform_bind_eq_ok.2 ⟨(d, arena), t, decoded, rfl⟩⟩

theorem perform_load_eq_ok : (load config).perform s = (.ok state, u) ↔ ∃ r s₀ d arena t tensors b,
    Reader.openArchive.perform s = (.ok r, s₀) ∧ (r.decode config).perform s₀ = (.ok (d, arena), t) ∧
      (arena.materializeAll d.refs).perform t = (.ok (tensors, b), u) ∧
      state = { tensors, memory := b.memory, metadata := d.givenMetadata } := by
  constructor
  · intro h
    obtain ⟨⟨d, tensors, b⟩, v, loaded, last⟩ := perform_bind_eq_ok.1 h
    obtain ⟨r, s₀, opened, rest⟩ := perform_bind_eq_ok.1 loaded
    obtain ⟨⟨_, arena⟩, t, decoded, rest⟩ := perform_bind_eq_ok.1 rest
    obtain ⟨⟨_, _⟩, u, made, rest⟩ := perform_bind_eq_ok.1 rest
    cases rest
    cases last
    exact ⟨r, s₀, d, arena, t, tensors, b, opened, decoded, made, rfl⟩
  · rintro ⟨r, s₀, d, arena, t, tensors, b, opened, decoded, made, rfl⟩
    have loaded : (loadTensors config).perform s = (.ok (d, tensors, b), u) :=
      perform_bind_eq_ok.2 ⟨r, s₀, opened, perform_bind_eq_ok.2 ⟨(d, arena), t, decoded,
        perform_bind_eq_ok.2 ⟨(tensors, b), u, made, rfl⟩⟩⟩
    exact perform_bind_eq_ok.2 ⟨(d, tensors, b), u, loaded, rfl⟩

theorem mem_zip_map {α β : Type} {l : List α} {f : α → β} {p : α × β} (h : p ∈ l.zip (l.map f)) :
    p.1 ∈ l ∧ p.2 = f p.1 := by
  induction l with
  | nil => cases h
  | cons a l ih =>
    obtain rfl | h := List.mem_cons.1 h
    · exact ⟨List.mem_cons_self, rfl⟩
    · exact ⟨List.mem_cons_of_mem _ (ih h).1, (ih h).2⟩

/-- What views are made into, once their storages have been read. -/
theorem loads_of_fills {a b : Arena} {reads : List (Text × Bytes)} (sized : a.Sized) (unread : a.loaded = {})
    (checked : ∀ name ref, (name, ref) ∈ d.refs → a.check ref = .ok ()) (fills : a.Fills b reads)
    (needed : reads.map Prod.fst = unseen [] (keysOf d.refs)) :
    Loads a.reader d reads {
      tensors := d.refs.map fun named => (named.1, named.2.onStorage (b.storageIndex named.2.storageKey))
      memory := b.memory
      metadata := d.givenMetadata } := by
  have keys : b.loaded.keys = reads.map Prod.fst := by
    rw [fills.keys, unread]
    rfl
  have listed {named : Text × TensorRef} (hn : named ∈ d.refs) : named.2.storageKey ∈ b.loaded.keys := by
    rw [keys, needed]
    exact mem_unseen.2 ⟨List.mem_map_of_mem hn, List.not_mem_nil⟩
  refine ⟨forall₂_map_self fun named hn => ?_, fun p hp q hq => ?_, rfl, needed ▸ nodup_unseen .., ?_⟩
  · obtain ⟨blob, registered, type, view⟩ := Arena.check_eq_ok (checked _ _ hn)
    obtain ⟨size, -, product⟩ := sized _ _ registered
    obtain ⟨count, number, -⟩ := exists_count product
    have fits := Arena.fitsIn_of_checkView (number ▸ view)
    obtain ⟨bytes, found⟩ := Option.isSome_iff_exists.1 (Arena.mem_keys_loaded.1 (listed hn))
    obtain ⟨added, entries, kept⟩ := fills.loaded
    have held : (named.2.storageKey, bytes) ∈ added := by
      have kept := Table.mem_entries_of_get? found
      rwa [entries, unread] at kept
    obtain ⟨⟨_, raw⟩, read, rfl, blob', registered', ordered⟩ := exists_of_forall₂ kept.flip held
    obtain rfl := Option.some.inj (registered.symm.trans registered')
    have buffer := Arena.buffer_storageIndex found
    exact {
      name := rfl
      dtype := rfl
      shape := TensorRef.map_ofNat_toNat fits.shape_nonneg
      stride := TensorRef.map_ofNat_toNat fits.stride_nonneg
      offset := Int.toNat_of_nonneg fits.offset_nonneg
      storage := ⟨raw, read, type ▸ buffer ▸ sameElements_of_inHostOrder ordered⟩ }
  · obtain ⟨hp, same⟩ := mem_zip_map hp
    obtain ⟨-, same'⟩ := mem_zip_map hq
    rw [same, same']
    exact List.idxOf_inj (listed hp)
  · rw [needed, unseen_nil]

/-- Loading refines decoding.  What is loaded of an archive is what is decoded of it, with the storages
that the views are of: after the records of which none is a storage, each of these is read once, in the order
of first use.  And an archive that is decoded is loaded where its storages are read back, if there are
tensors with the numbers of its views. -/
theorem load_refines_decode (config : Config) (s : Stream) :
    (∀ state u, (load config).perform s = (.ok state, u) →
      ∃ r s₀ d t reads, Reader.openArchive.perform s = (.ok r, s₀) ∧
        (decode config).perform s = (.ok d, t) ∧
        (∃ directory s₁ records,
          (describing .openArchive Zip.readDirectory).perform s = (.ok directory, s₁) ∧
            r.ReadsRecords records s₁ t ∧ ∀ key, storageRecord key ∉ records.map Prod.fst) ∧
        r.ReadsRecords (storageRecords reads) t u ∧ Loads r d reads state) ∧
    ∀ r s₀ d t u, Reader.openArchive.perform s = (.ok r, s₀) → (decode config).perform s = (.ok d, t) →
      r.ReadsBack (keysOf d.refs).eraseDups t u →
      ((∃ state, (load config).perform s = (.ok state, u)) ↔ ∀ named ∈ d.refs, named.2.Expressible) := by
  constructor
  · intro state u h
    obtain ⟨r, s₀, d, arena, t, tensors, b, opened, decoded, made, rfl⟩ := perform_load_eq_ok.1 h
    obtain ⟨extended, checked⟩ := Reader.extends_of_decode decoded
    have sized := extended.sized (Arena.sized_ofReader r)
    obtain rfl : arena.reader = r := extended.reader_eq
    have unread : arena.loaded = {} := extended.loaded_eq
    obtain ⟨reads, fills, records, needed, rfl, -⟩ := Arena.reads_of_materializeAll sized made
    obtain ⟨directory, s₁, before, listed, -, others, none⟩ := Reader.readsRecords_decode opened decoded
    rw [unread] at needed
    exact ⟨arena.reader, s₀, d, t, reads, opened, perform_decode_eq_ok.2 ⟨_, _, arena, opened, decoded⟩,
      ⟨directory, s₁, before, listed, others, none⟩, records, loads_of_fills sized unread checked fills needed⟩
  · rintro r s₀ d t u opened h ⟨reads, needed, records, recorded⟩
    obtain ⟨r', s₀', arena, opened', decoded⟩ := perform_decode_eq_ok.1 h
    cases opened.symm.trans opened'
    obtain ⟨extended, checked⟩ := Reader.extends_of_decode decoded
    have sized := extended.sized (Arena.sized_ofReader r)
    obtain rfl : arena.reader = r := extended.reader_eq
    have unread : arena.loaded = {} := extended.loaded_eq
    constructor
    · rintro ⟨state, h⟩
      obtain ⟨_, _, _, _, _, _, b, opened', decoded', made, -⟩ := perform_load_eq_ok.1 h
      cases opened.symm.trans opened'
      cases decoded.symm.trans decoded'
      obtain ⟨-, -, -, -, -, expressible⟩ := Arena.reads_of_materializeAll sized made
      exact expressible
    · intro expressible
      have whole : arena.Whole := by
        intro key bytes found
        rw [unread] at found
        cases found
      rw [← unseen_nil] at needed
      obtain ⟨⟨tensors, b⟩, made⟩ := Arena.exists_materializeAll sized whole
        (fun named hn => checked _ _ hn) expressible (unread ▸ needed) records recorded
      exact ⟨_, perform_load_eq_ok.2 ⟨_, s₀, d, arena, t, tensors, b, opened, decoded, made, rfl⟩⟩

end Load

/-- Decodes an archive and reads the storages of its views back. -/
def readable (config : Config) : Action Decoded := do
  let r ← Reader.openArchive
  let (d, _) ← r.decode config
  r.readBack (keysOf d.refs).eraseDups
  return d

theorem exists_readsBack {config : Config} {s u : Stream} {d : Decoded}
    (h : (readable config).perform s = (.ok d, u)) : ∃ r s₀ t, Reader.openArchive.perform s = (.ok r, s₀) ∧
      (decode config).perform s = (.ok d, t) ∧ r.ReadsBack (keysOf d.refs).eraseDups t u := by
  obtain ⟨r, s₀, opened, rest⟩ := perform_bind_eq_ok.1 h
  obtain ⟨⟨d, arena⟩, t, decoded, rest⟩ := perform_bind_eq_ok.1 rest
  obtain ⟨_, _, back, last⟩ := perform_bind_eq_ok.1 rest
  cases last
  exact ⟨r, s₀, t, opened, perform_decode_eq_ok.2 ⟨r, s₀, arena, opened, decoded⟩,
    Reader.readsBack_of_perform back⟩

/-- The archive of two views of one storage. -/
def tiedArchive : Stream := ((save unpadded tied 0).perform {}).2

set_option maxRecDepth 10000 in
theorem load_refines_decode_tied : ∃ r s₀ d t u state reads,
    Reader.openArchive.perform tiedArchive = (.ok r, s₀) ∧
    (decode {}).perform tiedArchive = (.ok d, t) ∧ r.ReadsBack (keysOf d.refs).eraseDups t u ∧
    (load {}).perform tiedArchive = (.ok state, u) ∧ r.ReadsRecords (storageRecords reads) t u ∧
    Loads r d reads state := by
  have found : ((readable {}).perform tiedArchive).1.toOption.map
      (fun d => decide (∀ named ∈ d.refs, named.2.Expressible)) = some true := by
    decide +kernel
  obtain ⟨d, u, read, expressible⟩ := exists_done_of_map found
  obtain ⟨r, s₀, t, opened, decoded, back⟩ := exists_readsBack read
  obtain ⟨state, loaded⟩ := ((load_refines_decode {} tiedArchive).2 r s₀ d t u opened decoded back).2
    (of_decide_eq_true expressible)
  obtain ⟨r', _, d', t', reads, opened', decoded', -, records, loads⟩ :=
    (load_refines_decode {} tiedArchive).1 state u loaded
  cases opened.symm.trans opened'
  cases decoded.symm.trans decoded'
  exact ⟨r, s₀, d, t, u, state, reads, opened, decoded, back, loaded, records, loads⟩

/-- A view without elements, one of whose sizes is no machine integer. -/
def oversized : Graph where
  nodes := #[.text "a", .tensor ⟨.uint8, [0, 0x8000000000000000], [1, 1], 0, 0⟩, .ordered [(0, 1)] []]
  memory := ⟨[[7]]⟩

/-- The archive of the view. -/
def oversizedArchive : Stream := ((save unpadded oversized 2).perform {}).2

set_option maxRecDepth 10000 in
/-- An archive that is decoded, and whose one storage is read back, need not be loaded. -/
theorem load_oversized : ∃ r s₀ d t u,
    Reader.openArchive.perform oversizedArchive = (.ok r, s₀) ∧
    (decode {}).perform oversizedArchive = (.ok d, t) ∧
    keysOf d.refs = [Text.ofNat 0] ∧ r.ReadsBack (keysOf d.refs).eraseDups t u ∧
    ((load {}).perform oversizedArchive).1 = .error (.typeFault .dimension) := by
  have found : ((readable {}).perform oversizedArchive).1.toOption.map (fun d => keysOf d.refs) =
      some [Text.ofNat 0] := by
    decide +kernel
  have refused : ((load {}).perform oversizedArchive).1.map (fun _ => ()) = .error (.typeFault .dimension) := by
    decide +kernel
  obtain ⟨d, u, read, keys⟩ := exists_done_of_map found
  obtain ⟨r, s₀, t, opened, decoded, back⟩ := exists_readsBack read
  refine ⟨r, s₀, d, t, u, opened, decoded, keys, back, ?_⟩
  cases loaded : ((load {}).perform oversizedArchive).1 with
  | ok state =>
    rw [loaded] at refused
    cases refused
  | error e =>
    rw [loaded] at refused
    cases refused
    rfl

end Checkpoint.Archive
