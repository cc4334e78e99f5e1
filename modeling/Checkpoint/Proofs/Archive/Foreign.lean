import Checkpoint.Proofs.Archive.ByteOrder
import Checkpoint.Proofs.Archive.Container
import Checkpoint.Proofs.Archive.Twins
import Mathlib.Data.List.Find

/-! Archives in the other order of bytes.  An archive is loaded as the same state as its foreign counterpart,
which declares the big order and whose storages hold the same elements turned around.  Each storage is read,
and turned around, once and by the type that it is registered with; that the views of it share it, and which
views there are, does not depend on the order. -/

namespace Checkpoint.Archive

open Effect Pickle

/-! ### Roots -/

section Roots

variable {members members' : Table Text (Zip.Entry × Int)} {root name folder : Text}

theorem eq_of_folder? (h : folder? name = some folder) : name = folder ++ objectRecord := by
  unfold folder? at h
  split at h
  · next object =>
    obtain ⟨front, split⟩ := List.isSuffixOf_iff_suffix.1 (Bool.and_eq_true_iff.1 object).1
    obtain rfl : name = ⟨front⟩ ++ "/" ++ objectRecord := by
      apply Text.ext_points
      rw [← split]
      exact (List.append_assoc ..).symm
    rw [dropEnd_append] at h
    rw [Option.some.inj h]
  · cases h

/-- A member that is not named like an object stream changes nothing about which folder is the root. -/
theorem findRoot_of_contains {added : Text} (distinct : members'.keys.Nodup)
    (grown : ∀ name, members'.contains name = (members.contains name || name == added))
    (plain : folder? added = none) (script : root ++ scriptRecord ≠ added) (found : findRoot members = .ok root) :
    findRoot members' = .ok root := by
  obtain ⟨single, absent⟩ := findRoot_eq_ok.1 found
  obtain ⟨object, listed, folder⟩ : ∃ name ∈ members.keys, folder? name = some root :=
    List.mem_filterMap.1 (single ▸ List.mem_singleton_self root)
  obtain rfl := eq_of_folder? folder
  refine findRoot_eq_ok.2 ⟨?_, by simp [grown, absent, script]⟩
  have here : root ++ objectRecord ∈ members'.keys := by
    rw [← Table.contains_iff_mem_keys, grown, Table.contains_iff_mem_keys.2 listed, Bool.true_or]
  rw [← filterMap_single root distinct here]
  apply List.filterMap_congr
  intro name hn
  split
  · next same => rw [same, folder]
  · next other =>
    rw [Option.eq_none_iff_forall_ne_some]
    rintro folder' h
    rw [← Table.contains_iff_mem_keys, grown, Bool.or_eq_true, beq_iff_eq, Table.contains_iff_mem_keys] at hn
    obtain hn | rfl := hn
    · have listed' := List.mem_filterMap.2 ⟨name, hn, h⟩
      rw [single, List.mem_singleton] at listed'
      exact other (listed' ▸ eq_of_folder? h)
    · cases plain.symm.trans h

theorem folder?_byteOrder (root : Text) : folder? (root ++ byteOrderRecord) = none := by
  rw [Option.eq_none_iff_forall_ne_some]
  intro folder h
  have ends := congrArg Text.points (eq_of_folder? h)
  have last := congrArg List.getLast? ends
  rw [Text.points_append, Text.points_append, List.getLast?_append, List.getLast?_append] at last
  exact absurd (Option.some.inj last) (by decide)

end Roots

/-! ### Foreign archives -/

namespace Reader

/-- The byte order that is declared, if any is, is the little one. -/
def DeclaresLittle (r : Reader) (S : Stream) : Prop :=
  ∀ raw, r.CanGive S byteOrderRecord raw → raw = ByteOrder.little.name.utf8

/-- The reader of an archive with other members, under the same root and in the big order. -/
def abroad (r : Reader) (members : Table Text (Zip.Entry × Int)) : Reader :=
  { r with members, byteOrder := .big }

/-- Without a declaration, and with that of the little order, the order is the little one. -/
theorem DeclaresLittle.byteOrder_eq {r : Reader} {S t : Stream} (little : r.DeclaresLittle S)
    (opened : openArchive.perform S = (.ok r, t)) : r.byteOrder = .little := by
  obtain ⟨_, s₁, s₂, listed, -, -, version, order⟩ := perform_openArchive_eq_ok.1 opened
  have hs : S.Visits s₁ := (Zip.reads_readDirectory S).of_ok listed
  have hs' : s₁.Visits s₂ := (reads_readVersion r s₁).of_ok version
  unfold readByteOrder at order
  split at order
  · obtain ⟨raw, u, given, rest⟩ := perform_bind_eq_ok.1 order
    rw [little raw ⟨s₂, u, hs.trans hs', given⟩] at rest
    exact (Except.ok.inj (Prod.mk.inj rest).1).symm
  · exact (Except.ok.inj (Prod.mk.inj order).1).symm

end Reader

/-- The archive of these members, on another stream, has the records of one that is open: it declares the big
order, the storages that are referred to are turned around element by element, each of the type that it is
registered with, and every other record is the same. -/
structure Foreign (S T : Stream) (r : Reader) (blobs : Table Text Blob)
    (members : Table Text (Zip.Entry × Int)) : Prop where
  names : ∀ name, members.contains name = (r.members.contains name || name == r.root ++ byteOrderRecord)
  sizes : ∀ name, name ≠ byteOrderRecord → (r.abroad members).recordSize name = r.recordSize name
  order : (r.abroad members).Gives T byteOrderRecord ByteOrder.big.name.utf8
  storages : ∀ key blob raw, blobs.get? key = some blob → r.CanGive S (storageRecord key) raw →
    ∃ turned, SameElements .big blob.dtype raw turned ∧ (r.abroad members).Gives T (storageRecord key) turned
  others : ∀ name data, name ≠ byteOrderRecord → (∀ key ∈ blobs.keys, name ≠ storageRecord key) →
    r.CanGive S name data → (r.abroad members).Gives T name data

namespace Foreign

variable {S T s s' t : Stream} {r : Reader} {blobs : Table Text Blob} {members : Table Text (Zip.Entry × Int)}
  {config : Config} {name : Text} {data : Bytes} {d : Decoded} {arena : Arena}

theorem hasRecord_eq (h : Foreign S T r blobs members) (other : name ≠ byteOrderRecord) :
    (r.abroad members).hasRecord name = r.hasRecord name := by
  have apart : (r.root ++ name == r.root ++ byteOrderRecord) = false :=
    beq_eq_false_iff_ne.2 fun same => other (Text.append_left_cancel same)
  have named := h.names (r.root ++ name)
  rw [apart, Bool.or_false] at named
  exact named

theorem storageSize_eq (h : Foreign S T r blobs members) (key : Text) :
    (r.abroad members).storageSize key = r.storageSize key := by
  have other : storageRecord key ≠ byteOrderRecord := storageRecord_ne (by decide) key
  rw [Reader.storageSize, Reader.storageSize, Reader.requireStorage, Reader.requireStorage, h.hasRecord_eq other,
    h.sizes _ other]
  rfl

theorem visits_readRecord (ht : T.Visits t) {t' : Stream}
    (read : (r.readRecord name).perform t = (.ok data, t')) : T.Visits t' :=
  ht.trans ((r.reads_readRecord name t).of_ok read)

/-- What is neither the byte order nor a storage is read as it was. -/
theorem exists_readRecord (h : Foreign S T r blobs members) (other : name ≠ byteOrderRecord)
    (plain : storageFolder.points.isPrefixOf name.points = false) (hs : S.Visits s)
    (read : (r.readRecord name).perform s = (.ok data, s')) (ht : T.Visits t) :
    ∃ t', ((r.abroad members).readRecord name).perform t = (.ok data, t') ∧ T.Visits t' := by
  obtain ⟨t', found⟩ := h.others name data other (fun key _ same => storageRecord_ne plain key same.symm)
    ⟨s, s', hs, read⟩ t ht
  exact ⟨t', found, visits_readRecord ht found⟩

theorem exists_readVersion (h : Foreign S T r blobs members) {version : Int} (hs : S.Visits s)
    (read : r.readVersion.perform s = (.ok version, s')) (ht : T.Visits t) :
    ∃ t', (r.abroad members).readVersion.perform t = (.ok version, t') ∧ T.Visits t' := by
  have known : ∀ name ∈ versionRecords, name ≠ byteOrderRecord ∧
      storageFolder.points.isPrefixOf name.points = false := by
    decide
  have places : versionRecords.find? (r.abroad members).hasRecord = versionRecords.find? r.hasRecord :=
    List.find?_congr fun name hn => h.hasRecord_eq (known name hn).1
  obtain ⟨record, raw, found, given, states⟩ := Reader.perform_readVersion_eq_ok.1 read
  obtain ⟨other, plain⟩ := known record (List.mem_of_find?_eq_some found)
  obtain ⟨t', again, visits⟩ := h.exists_readRecord other plain hs given ht
  exact ⟨t', Reader.perform_readVersion_eq_ok.2 ⟨record, raw, places.trans found, again, states⟩, visits⟩

theorem exists_readByteOrder (h : Foreign S T r blobs members) (ht : T.Visits t) :
    ∃ t', (r.abroad members).readByteOrder.perform t = (.ok .big, t') ∧ T.Visits t' := by
  obtain ⟨t', given⟩ := h.order t ht
  have present : (r.abroad members).hasRecord byteOrderRecord = true := by
    have named := h.names (r.root ++ byteOrderRecord)
    rw [beq_self_eq_true, Bool.or_true] at named
    exact named
  refine ⟨t', ?_, visits_readRecord ht given⟩
  unfold Reader.readByteOrder
  rw [if_pos present]
  exact perform_bind_eq_ok.2 ⟨_, t', given, rfl⟩

theorem exists_decode (h : Foreign S T r blobs members)
    (decoded : (r.decode config).perform s = (.ok (d, arena), s')) (hs : S.Visits s) (ht : T.Visits t) :
    ∃ t', ((r.abroad members).decode config).perform t = (.ok (d, arena.portedTo (r.abroad members)), t') ∧
      T.Visits t' := by
  rw [Reader.decode, perform_bind_eq_ok] at decoded
  obtain ⟨bytes, s₁, read, rest⟩ := decoded
  obtain ⟨t', again, visits⟩ := h.exists_readRecord (by decide) (by decide) hs read ht
  refine ⟨t', perform_bind_eq_ok.2 ⟨bytes, t', again, ?_⟩, visits⟩
  obtain ⟨e, m, m', refused, -⟩ | ⟨⟨v, c⟩, m, loaded, loaded'⟩ :=
    Machine.load_portedTo h.storageSize_eq config bytes
  · rw [refused] at rest
    cases rest
  · simp only [loaded, perform_bind_eq_ok, perform_ofExcept_eq_ok] at rest
    obtain ⟨_, _, ⟨⟨⟩, rfl⟩, d', _, ⟨value, rfl⟩, rest⟩ := rest
    cases rest
    simp only [loaded', perform_bind_eq_ok, perform_ofExcept_eq_ok, Machine.portedTo, ofValue_portedTo]
    exact ⟨_, _, ⟨rfl, rfl⟩, _, _, ⟨value, rfl⟩, rfl⟩

/-- A storage of which the elements have been turned around is kept as the storage was. -/
theorem exists_fetches {a b : Arena} {key : Text} {bytes : Bytes} {reads : List (Text × Bytes)}
    (h : Foreign S T a.reader a.blobs members) (little : a.reader.byteOrder = .little)
    (fetched : a.Fetches key bytes b reads s s') (hs : S.Visits s) (ht : T.Visits t) :
    ∃ reads' t', (a.portedTo (a.reader.abroad members)).Fetches key bytes
      (b.portedTo (a.reader.abroad members)) reads' t t' ∧ T.Visits t' := by
  cases fetched with
  | held found =>
    refine ⟨[], t, .held ?_ t, ht⟩
    exact found
  | @read blob raw _ _ _ unread registered read ordered =>
    rw [little] at ordered
    obtain rfl : raw = bytes := Option.some.inj ordered
    obtain ⟨turned, same, gives⟩ := h.storages key blob raw registered ⟨s, s', hs, read⟩
    obtain ⟨t', given⟩ := gives t ht
    exact ⟨[(key, turned)], t', .read unread registered given (inHostOrder?_eq_some.2 same.symm),
      visits_readRecord ht given⟩

theorem exists_materializeAll {a b : Arena} {refs : List (Text × TensorRef)} {tensors : List (Text × Tensor)}
    (h : Foreign S T a.reader a.blobs members) (little : a.reader.byteOrder = .little) (sized : a.Sized)
    (made : (a.materializeAll refs).perform s = (.ok (tensors, b), s')) (hs : S.Visits s) (ht : T.Visits t) :
    ∃ t', ((a.portedTo (a.reader.abroad members)).materializeAll refs).perform t =
      (.ok (tensors, b.portedTo (a.reader.abroad members)), t') ∧ T.Visits t' := by
  induction refs generalizing a tensors s t with
  | nil =>
    cases made
    exact ⟨t, rfl, ht⟩
  | cons named refs ih =>
    obtain ⟨⟨tensor, c⟩, u, first, made⟩ := perform_bind_eq_ok.1 made
    obtain ⟨⟨others, e⟩, v, rest, made⟩ := perform_bind_eq_ok.1 made
    cases made
    have sized' : (a.portedTo (a.reader.abroad members)).Sized := fun key blob registered => by
      obtain ⟨size, recorded, product⟩ := sized key blob registered
      exact ⟨size, (h.storageSize_eq key).trans recorded, product⟩
    obtain ⟨checked, bytes, reads, fetched, same, within⟩ := (Arena.perform_materialize_eq_ok sized).1 first
    obtain ⟨reads', t', fetched', visits⟩ := h.exists_fetches little fetched hs ht
    have again : ((a.portedTo (a.reader.abroad members)).materialize named.2).perform t =
        (.ok (tensor, c.portedTo (a.reader.abroad members)), t') :=
      (Arena.perform_materialize_eq_ok sized').2 ⟨checked, bytes, reads', fetched', same, within⟩
    have fills := fetched.fills
    have hu : S.Visits u := hs.trans ((a.reads_materialize named.2 s).of_ok first)
    have next : Foreign S T c.reader c.blobs members := by
      rw [fills.reader, fills.blobs]
      exact h
    obtain ⟨t₂, others', visits⟩ := ih next (fills.reader ▸ little) (fills.sized sized) rest hu visits
    rw [fills.reader] at others'
    exact ⟨t₂, perform_bind_eq_ok.2 ⟨_, t', again, perform_bind_eq_ok.2 ⟨_, t₂, others', rfl⟩⟩, visits⟩

theorem exists_openArchive {directory : Zip.Directory}
    (h : Foreign S T r blobs (membersOf directory)) (opened : Reader.openArchive.perform S = (.ok r, s))
    (listed : Zip.readDirectory.perform T = (.ok directory, t)) :
    ∃ t', Reader.openArchive.perform T = (.ok (r.abroad (membersOf directory)), t') ∧ T.Visits t' := by
  obtain ⟨_, s₁, _, list, -, found, version, -⟩ := Reader.perform_openArchive_eq_ok.1 opened
  have hs : S.Visits s₁ := (Zip.reads_readDirectory S).of_ok list
  have ht : T.Visits t := (Zip.reads_readDirectory T).of_ok listed
  have root : findRoot (membersOf directory) = .ok r.root := by
    refine findRoot_of_contains ?_ h.names (folder?_byteOrder r.root) ?_ found
    · exact Table.nodup_keys_ofList _
    · exact fun same => absurd (Text.append_left_cancel same) (by decide)
  obtain ⟨t₁, version', visits⟩ := h.exists_readVersion hs version ht
  obtain ⟨t₂, order', visits⟩ := h.exists_readByteOrder visits
  exact ⟨t₂, Reader.perform_openArchive_eq_ok.2 ⟨directory, t, t₁, listed, rfl, root, version', order'⟩, visits⟩

end Foreign

/-! ### Archives that are turned around -/

/-- What a record holds when the storages are turned around. -/
def turnedData (blobs : Table Text Blob) (name : Text) (data : Bytes) : Bytes :=
  match (storageKey? name).bind blobs.get? with
  | some blob => (blob.dtype.byteswap? data).getD data
  | none => data

/-- The records of an archive with the elements of its storages turned around and the big order declared. -/
def turnedRecords (blobs : Table Text Blob) (records : List (Text × Bytes)) : List (Text × Bytes) :=
  (records.filter fun record => record.1 != byteOrderRecord).map
      (fun record => (record.1, turnedData blobs record.1 record.2)) ++
    [(byteOrderRecord, ByteOrder.big.name.utf8)]

section Turned

variable {blobs : Table Text Blob} {records : List (Text × Bytes)} {key name : Text} {blob : Blob}
  {raw turned : Bytes}

theorem length_turnedData (name : Text) (data : Bytes) : (turnedData blobs name data).length = data.length := by
  unfold turnedData
  split
  · next blob _ =>
    cases swapped : blob.dtype.byteswap? data with
    | none => rfl
    | some turned => exact (byteswap?_eq_some.1 swapped).length
  · rfl

theorem turnedData_storage (registered : blobs.get? key = some blob)
    (swapped : blob.dtype.byteswap? raw = some turned) : turnedData blobs (storageRecord key) raw = turned := by
  rw [turnedData, storageKey?_storageRecord, Option.bind_some, registered]
  dsimp only
  rw [swapped, Option.getD_some]

theorem turnedData_other (other : ∀ key ∈ blobs.keys, name ≠ storageRecord key) (data : Bytes) :
    turnedData blobs name data = data := by
  have none : (storageKey? name).bind blobs.get? = none := by
    rw [Option.bind_eq_none_iff]
    intro key hk
    rw [Table.get?_eq_none_iff, ← Bool.not_eq_true, Table.contains_iff_mem_keys]
    exact fun listed => other key listed (eq_of_storageKey? hk)
  rw [turnedData, none]

theorem map_fst_turnedRecords : (turnedRecords blobs records).map Prod.fst =
    (records.map Prod.fst).filter (· != byteOrderRecord) ++ [byteOrderRecord] := by
  simp [turnedRecords, List.filter_map, Function.comp_def]

theorem mem_map_fst_turnedRecords : name ∈ (turnedRecords blobs records).map Prod.fst ↔
    name ∈ records.map Prod.fst ∨ name = byteOrderRecord := by
  rw [map_fst_turnedRecords, List.mem_append, List.mem_filter, List.mem_singleton, bne_iff_ne]
  tauto

theorem mem_turnedRecords {data : Bytes} (hr : (name, data) ∈ records) (other : name ≠ byteOrderRecord) :
    (name, turnedData blobs name data) ∈ turnedRecords blobs records :=
  List.mem_append_left _ (List.mem_map.2 ⟨(name, data), List.mem_filter.2 ⟨hr, bne_iff_ne.2 other⟩, rfl⟩)

end Turned

namespace Reader

variable {r : Reader} {root name : Text} {records : List (Text × Bytes)} {content data : Bytes} {S : Stream}

theorem Reads.gives (h : r.Reads root records content) (hs : S.Has content) (hr : (name, data) ∈ records) :
    r.Gives S name data := by
  rintro s ⟨calls, position, rfl⟩
  have reads : (r.readRecord name).Ensures (S.after calls S.content position) (fun bytes _ => bytes = data)
      fun _ _ => False :=
    h.ensures_readRecord hr (hs.after calls position) fun _ _ => rfl
  obtain ⟨_, t, read, rfl⟩ := reads.exists_ok
  exact ⟨t, read⟩

theorem entry_of_absent (absent : r.hasRecord name = false) :
    r.entry name = .error (.unknownKey (r.root ++ name)) := by
  have none : r.entry? name = none := (Table.get?_eq_none_iff ..).2 absent
  rw [entry, none]

theorem recordSize_of_absent (absent : r.hasRecord name = false) :
    r.recordSize name = .error (.unknownKey (r.root ++ name)) := by
  rw [recordSize, entry_of_absent absent]
  rfl

theorem Reads.contains_iff (h : r.Reads root records content) (name : Text) :
    r.members.contains name = true ↔ ∃ record ∈ records.map Prod.fst, root ++ record = name := by
  rw [Table.contains_iff_mem_keys, h.keys, ← List.mem_map, List.map_map]
  rfl

/-- Nothing can be read but the records that there are. -/
theorem Reads.mem_of_canGive (h : r.Reads root records content) (hs : S.Has content) (can : r.CanGive S name data) :
    (name, data) ∈ records := by
  obtain ⟨s, t, visits, read⟩ := can
  have listed : r.hasRecord name = true := by
    obtain ⟨_, u, entered, -⟩ := perform_bind_eq_ok.1 read
    obtain ⟨found, -⟩ := perform_ofExcept_eq_ok.1 entered
    rw [← Bool.not_eq_false]
    intro absent
    cases (entry_of_absent absent).symm.trans found
  obtain ⟨⟨name, data'⟩, hr, rfl⟩ := List.mem_map.1 ((h.hasRecord name).1 listed)
  obtain ⟨t', again⟩ := h.gives hs hr s visits
  cases read.symm.trans again
  exact hr

theorem Reads.readsWhole (h : r.Reads root records content) (hs : S.Has content) : r.ReadsWhole S :=
  fun _ _ can => h.storageSize (h.mem_of_canGive hs can)

end Reader

/-- Where the storages have the sizes that are declared, the records turned around are those of a foreign
archive. -/
theorem foreign_of_reads {S T : Stream} {a : Arena} {members : Table Text (Zip.Entry × Int)} {root : Text}
    {records : List (Text × Bytes)} {content content' : Bytes} (sized : a.Sized) (hS : S.Has content)
    (hT : T.Has content') (reads : a.reader.Reads root records content)
    (turned : (a.reader.abroad members).Reads root (turnedRecords a.blobs records) content') :
    Foreign S T a.reader a.blobs members where
  names name := by
    have named := turned.contains_iff name
    simp only [mem_map_fst_turnedRecords, or_and_right, exists_or, exists_eq_left, ← reads.contains_iff] at named
    rw [Bool.eq_iff_iff, Bool.or_eq_true, beq_iff_eq, reads.root_eq, eq_comm (a := name)]
    exact named
  sizes name other := by
    have same : (a.reader.abroad members).hasRecord name = a.reader.hasRecord name := by
      rw [Bool.eq_iff_iff, turned.hasRecord, reads.hasRecord, mem_map_fst_turnedRecords, or_iff_left other]
    cases listed : a.reader.hasRecord name with
    | false =>
      rw [Reader.recordSize_of_absent listed, Reader.recordSize_of_absent (same.trans listed)]
      rfl
    | true =>
      obtain ⟨⟨name, data⟩, hr, rfl⟩ := List.mem_map.1 ((reads.hasRecord name).1 listed)
      rw [reads.recordSize hr, turned.recordSize (mem_turnedRecords hr other), length_turnedData]
  order := turned.gives hT (List.mem_append_right _ (List.mem_singleton_self _))
  storages key blob raw registered can := by
    have hr := reads.mem_of_canGive hS can
    have whole := Arena.size_dvd_of_sized sized registered (reads.storageSize hr)
    obtain ⟨bytes, swapped⟩ := exists_byteswap whole
    refine ⟨bytes, byteswap?_eq_some.1 swapped, turned.gives hT ?_⟩
    rw [← turnedData_storage registered swapped]
    exact mem_turnedRecords hr (storageRecord_ne (by decide) key)
  others name data other plain can := by
    rw [← turnedData_other plain data]
    exact turned.gives hT (mem_turnedRecords (reads.mem_of_canGive hS can) other)

/-- A stream that ends in the finished archive of these records. -/
structure IsArchive (layout : Config) (records : List (Text × Bytes)) (S : Stream) : Prop where
  has : S.Has S.content
  finished : Finished (rootOf layout) records S.content
  unlike : ¬ Zip.HasLocator S.content
  distinct : (records.map Prod.fst).Nodup
  filled : records ≠ []

section IsArchive

variable {layout config : Config} {S T s t : Stream} {r : Reader} {records : List (Text × Bytes)} {d : Decoded}
  {arena : Arena}

/-- The reader of an archive has its records, under the root that they were written to. -/
theorem IsArchive.reads (h : IsArchive layout records S) (opened : Reader.openArchive.perform S = (.ok r, s)) :
    r.Reads (rootOf layout) records S.content := by
  obtain ⟨directory, _, _, listed, members, found, -⟩ := Reader.perform_openArchive_eq_ok.1 opened
  have directs : Zip.readDirectory.Ensures S (fun directory _ => ∀ version order,
      Reader.Reads ⟨membersOf directory, rootOf layout, version, order⟩ (rootOf layout) records S.content)
      fun _ _ => True :=
    Reader.ensures_readDirectory h.has h.finished h.unlike h.distinct h.filled fun _ _ reads _ => reads
  have reads := directs.of_ok listed
  -- The root is the folder of an object stream, and only that of the records can be one.
  have root : r.root = rootOf layout := by
    have single := (findRoot_eq_ok.1 found).1
    obtain ⟨name, hn, folder⟩ := List.mem_filterMap.1 (single ▸ List.mem_singleton_self r.root)
    rw [members, (reads 0 .little).keys, List.mem_map] at hn
    obtain ⟨record, -, rfl⟩ := hn
    rw [folder?_rootOf] at folder
    split at folder
    · exact (Option.some.inj folder).symm
    · cases folder
  obtain ⟨_, _, version, order⟩ := r
  cases members
  cases root
  exact reads version order

/-- The archive of the records turned around is foreign to that of the records. -/
theorem IsArchive.exists_foreign (h : IsArchive layout records S)
    (turned : IsArchive layout (turnedRecords arena.blobs records) T)
    (opened : Reader.openArchive.perform S = (.ok r, s))
    (decoded : (r.decode config).perform s = (.ok (d, arena), t)) :
    ∃ directory u, Zip.readDirectory.perform T = (.ok directory, u) ∧
      Foreign S T r arena.blobs (membersOf directory) := by
  have extended := (Reader.extends_of_decode decoded).1
  have sized := extended.sized (Arena.sized_ofReader r)
  obtain rfl : arena.reader = r := extended.reader_eq
  have reads := h.reads opened
  have directs : Zip.readDirectory.Ensures T (fun directory _ =>
      Foreign S T arena.reader arena.blobs (membersOf directory)) fun _ _ => False :=
    Reader.ensures_readDirectory turned.has turned.finished turned.unlike turned.distinct turned.filled
      fun _ _ reads' _ => foreign_of_reads sized h.has turned.has reads (reads.root_eq ▸ reads' _ _)
  obtain ⟨directory, u, listed, foreign⟩ := directs.exists_ok
  exact ⟨directory, u, listed, foreign⟩

end IsArchive

/-- Loading does not depend on the order of bytes.  Where an archive is loaded that declares the little order or
none, any that is foreign to it is loaded as the very same state.  To swap the bytes of a whole number of
elements is always possible, keeps their number and is undone by doing it again.  And no load fails for a buffer
that cannot be swapped, if the members of storages are read at their recorded sizes. -/
theorem load_foreign (config : Config) (S : Stream) :
    (∀ T state u r s d arena t directory v, (load config).perform S = (.ok state, u) →
      Reader.openArchive.perform S = (.ok r, s) → (r.decode config).perform s = (.ok (d, arena), t) →
      r.DeclaresLittle S → Zip.readDirectory.perform T = (.ok directory, v) →
      Foreign S T r arena.blobs (membersOf directory) → ∃ w, (load config).perform T = (.ok state, w)) ∧
    (∀ (d : DType) (raw : Bytes), (d.size ∣ raw.length → ∃ turned, d.byteswap? raw = some turned) ∧
      ∀ turned, d.byteswap? raw = some turned → turned.length = raw.length ∧ d.byteswap? turned = some raw) ∧
    ((∀ r s, Reader.openArchive.perform S = (.ok r, s) → r.ReadsWhole S) →
      ∀ u, (load config).perform S ≠ (.error .unevenBuffer, u)) := by
  refine ⟨?_, fun d raw => ⟨exists_byteswap, fun turned h => ?_⟩, fun whole u => load_ne_unevenBuffer whole⟩
  · intro T state u r s d arena t directory v loaded opened decoded declared listed foreign
    obtain ⟨_, _, _, _, _, tensors, b, opened', decoded', made, rfl⟩ := perform_load_eq_ok.1 loaded
    cases opened.symm.trans opened'
    cases decoded.symm.trans decoded'
    have extended := (Reader.extends_of_decode decoded).1
    obtain rfl : arena.reader = r := extended.reader_eq
    have hs : S.Visits s := (Reader.reads_openArchive S).of_ok opened
    have ht : s.Visits t := (Reader.reads_decode config _ s).of_ok decoded
    obtain ⟨t₀, opened', visits⟩ := foreign.exists_openArchive opened listed
    obtain ⟨t₁, decoded', visits⟩ := foreign.exists_decode decoded hs visits
    obtain ⟨w, made', -⟩ := foreign.exists_materializeAll (declared.byteOrder_eq opened)
      (extended.sized (Arena.sized_ofReader _)) made (hs.trans ht) visits
    exact ⟨w, perform_load_eq_ok.2 ⟨_, t₀, d, _, t₁, tensors, _, opened', decoded', made', rfl⟩⟩
  · exact ⟨(byteswap?_eq_some.1 h).length, byteswap?_byteswap? h⟩

/-- Writes records as an archive of its own. -/
def written (records : List (Text × Bytes)) : Except Error (List Text) × Stream :=
  (Writer.writing unpadded (records.forM fun record => Writer.writeRecord record.1 record.2)).perform {}

/-- What can be seen of records: whether there are any, their names can be written and differ, and the archive
is whole. -/
def isWritten (records : List (Text × Bytes)) : Bool :=
  records.all (fun record => !record.1.points.any Text.isSurrogate && decide (0 ∉ record.1.points)) &&
    decide (records.map Prod.fst).Nodup && !records.isEmpty && isWhole (written records)

theorem isArchive_of_isWritten {records : List (Text × Bytes)} (h : isWritten records = true) :
    IsArchive unpadded records (.ofBytes (written records).2.content) := by
  simp only [isWritten, Bool.and_eq_true, List.all_eq_true, Bool.not_eq_true', decide_eq_true_eq,
    List.isEmpty_eq_false_iff] at h
  obtain ⟨⟨⟨named, distinct⟩, filled⟩, whole⟩ := h
  obtain ⟨names, t, saved, last, short, unlike⟩ := exists_of_isWhole whole
  have root : IsName (rootOf unpadded) := isName_rootOf (.of_check (by decide))
  have healthy : ({} : Stream).Healthy := ⟨rfl, rfl, rfl, rfl⟩
  have writable : ∀ record ∈ records, IsName (rootOf unpadded ++ record.1) := fun record hr =>
    root.append (.of_check (named record hr))
  obtain ⟨-, content, behind, finished⟩ := (Writer.ensures_writing healthy writable distinct).of_ok saved
  obtain rfl := content_eq_of_behind behind last
  rw [saved]
  exact ⟨⟨⟨rfl, rfl, rfl, rfl⟩, rfl, short⟩, finished, unlike, distinct, filled⟩

/-- Two views of one storage of reals, and a complex number. -/
def assorted : Graph where
  nodes := #[.text "w", .tensor ⟨.float32, [2], [1], 0, 0⟩, .text "v", .tensor ⟨.float32, [1], [1], 1, 0⟩,
    .text "z", .tensor ⟨.complex64, [1], [1], 0, 1⟩, .dict [(0, 1), (2, 3), (4, 5)]]
  memory := ⟨[[1, 2, 3, 4, 5, 6, 7, 8], [9, 10, 11, 12, 13, 14, 15, 16]]⟩

/-- The records of the views, without a declaration of their order. -/
def assortedRecords : List (Text × Bytes) :=
  match assorted.dump unpadded 6 with
  | .ok d => recordsOf unpadded assorted.memory d
  | .error _ => []

/-- The storages that the views refer to. -/
def assortedBlobs : Table Text Blob :=
  ⟨[("0", ⟨"0", .float32, 2, 8⟩), ("1", ⟨"1", .complex64, 1, 8⟩)]⟩

/-- The archive of the views, and the same in the big order. -/
def assortedArchive : Stream := .ofBytes (written assortedRecords).2.content
def turnedArchive : Stream := .ofBytes (written (turnedRecords assortedBlobs assortedRecords)).2.content

/-- The storages that are referred to in an archive, and what is held of them once it has been loaded. -/
def held (config : Config) (s : Stream) : Option (List (Text × Blob) × List Bytes) :=
  (Effect.perform (loadTensors config) s).1.toOption.map fun found => (found.2.2.blobs.entries, found.2.2.loaded.values)

theorem exists_of_held {config : Config} {s : Stream} {found : List (Text × Blob) × List Bytes}
    (h : held config s = some found) : ∃ state u r s₀ d arena t, (load config).perform s = (.ok state, u) ∧
      Reader.openArchive.perform s = (.ok r, s₀) ∧ (r.decode config).perform s₀ = (.ok (d, arena), t) ∧
      arena.blobs = ⟨found.1⟩ ∧ state.memory = ⟨found.2⟩ := by
  unfold held at h
  cases loaded : (loadTensors config).perform s with
  | mk outcome u =>
    rw [loaded] at h
    cases outcome with
    | error e => cases h
    | ok result =>
      obtain ⟨d, tensors, b⟩ := result
      obtain ⟨r, s₀, opened, rest⟩ := perform_bind_eq_ok.1 loaded
      obtain ⟨⟨_, arena⟩, t, decoded, rest⟩ := perform_bind_eq_ok.1 rest
      obtain ⟨⟨_, _⟩, v, made, last⟩ := perform_bind_eq_ok.1 rest
      cases last
      have sized := (Reader.extends_of_decode decoded).1.sized (Arena.sized_ofReader r)
      obtain ⟨_, fills, -⟩ := Arena.reads_of_materializeAll sized made
      cases h
      have done : (load config).perform s = (.ok _, u) := perform_bind_eq_ok.2 ⟨_, u, loaded, rfl⟩
      exact ⟨_, u, r, s₀, d, arena, t, done, opened, decoded, fills.blobs.symm, rfl⟩

set_option maxRecDepth 100000 in
theorem load_foreign_assorted : ∃ state u w, (load {}).perform assortedArchive = (.ok state, u) ∧
    (load {}).perform turnedArchive = (.ok state, w) ∧ state.memory = assorted.memory ∧
    (∃ turned, DType.byteswap? .complex64 [9, 10, 11, 12, 13, 14, 15, 16] = some turned ∧ turned.length = 8 ∧
      DType.byteswap? .complex64 turned = some [9, 10, 11, 12, 13, 14, 15, 16]) ∧
    ∀ v, (load {}).perform turnedArchive ≠ (.error .unevenBuffer, v) := by
  have whole : isWritten assortedRecords = true := by
    decide +kernel
  have whole' : isWritten (turnedRecords assortedBlobs assortedRecords) = true := by
    decide +kernel
  have undeclared : assortedRecords.all (fun record => record.1 != byteOrderRecord) = true := by
    decide +kernel
  have seen : (held {} assortedArchive == some (assortedBlobs.entries, assorted.memory.buffers)) = true := by
    decide +kernel
  have archive : IsArchive unpadded assortedRecords assortedArchive := isArchive_of_isWritten whole
  have turned : IsArchive unpadded (turnedRecords assortedBlobs assortedRecords) turnedArchive :=
    isArchive_of_isWritten whole'
  obtain ⟨state, u, r, s, d, arena, t, loaded, opened, decoded, blobs, memory⟩ := exists_of_held (eq_of_beq seen)
  have turned' : IsArchive unpadded (turnedRecords arena.blobs assortedRecords) turnedArchive := by
    rw [blobs]
    exact turned
  obtain ⟨directory, v, listed, foreign⟩ := archive.exists_foreign turned' opened decoded
  have little : r.DeclaresLittle assortedArchive := fun raw can => by
    have absent := List.all_eq_true.1 undeclared _ ((archive.reads opened).mem_of_canGive archive.has can)
    simp at absent
  obtain ⟨w, again⟩ := (load_foreign {} assortedArchive).1 turnedArchive state u r s d arena t directory v loaded
    opened decoded little listed foreign
  obtain ⟨exchanged, back⟩ := (load_foreign {} assortedArchive).2.1 .complex64 [9, 10, 11, 12, 13, 14, 15, 16]
  obtain ⟨swapped, h⟩ := exchanged (by decide)
  refine ⟨state, u, w, loaded, again, memory, ⟨swapped, h, (back swapped h).1, (back swapped h).2⟩, ?_⟩
  exact (load_foreign {} turnedArchive).2.2 fun r' s' opened' =>
    (turned.reads opened').readsWhole turned.has

end Checkpoint.Archive
