import Checkpoint.Archive.Load
import Checkpoint.Proofs.Archive.Saving

/-! Which records of an archive are read, and in which order. -/

namespace Checkpoint.Archive

open Effect

/-- Records of an archive have been read whole, one after the other, and nothing else has been done with the
stream. -/
inductive Reader.ReadsRecords (r : Reader) : List (Text × Bytes) → Stream → Stream → Prop
  | nil (s : Stream) : r.ReadsRecords [] s s
  | cons {name : Text} {bytes : Bytes} {records : List (Text × Bytes)} {s t u : Stream}
    (read : (r.readRecord name).perform s = (.ok bytes, t)) (rest : r.ReadsRecords records t u) :
    r.ReadsRecords ((name, bytes) :: records) s u

namespace Reader

variable {r : Reader} {config : Config} {s t u : Stream} {records records' : List (Text × Bytes)}

theorem ReadsRecords.append (h : r.ReadsRecords records s t) (h' : r.ReadsRecords records' t u) :
    r.ReadsRecords (records ++ records') s u := by
  induction h with
  | nil => exact h'
  | cons read _ ih => exact .cons read (ih h')

theorem readsRecords_append : r.ReadsRecords (records ++ records') s u ↔
    ∃ t, r.ReadsRecords records s t ∧ r.ReadsRecords records' t u := by
  refine ⟨fun h => ?_, fun ⟨t, first, rest⟩ => first.append rest⟩
  induction records generalizing s with
  | nil => exact ⟨s, .nil s, h⟩
  | cons record records ih =>
    cases h with
    | cons read rest =>
      obtain ⟨t, first, rest⟩ := ih rest
      exact ⟨t, .cons read first, rest⟩

theorem perform_readVersion_eq_ok {version : Int} : r.readVersion.perform s = (.ok version, t) ↔
    ∃ record raw, versionRecords.find? r.hasRecord = some record ∧
      (r.readRecord record).perform s = (.ok raw, t) ∧
      (Text.ofAscii? raw).bind Decimal.integer? = some version ∧
      ¬ (version < oldestVersion ∨ newestVersion < version) := by
  unfold readVersion
  cases found : versionRecords.find? r.hasRecord with
  | none =>
    constructor
    · nofun
    · rintro ⟨_, _, ⟨⟩, _⟩
  | some record =>
    constructor
    · intro h
      obtain ⟨raw, u, read, rest⟩ := perform_bind_eq_ok.1 h
      split at rest
      · cases rest
      · next stated =>
        split at rest
        · cases rest
        · next supported =>
          cases rest
          exact ⟨record, raw, rfl, read, stated, supported⟩
    · rintro ⟨_, raw, ⟨⟩, read, stated, supported⟩
      refine perform_bind_eq_ok.2 ⟨raw, t, read, ?_⟩
      rw [stated]
      dsimp only
      rw [if_neg supported]
      rfl

theorem readsRecords_readVersion {version : Int} (h : r.readVersion.perform s = (.ok version, t)) :
    ∃ record ∈ versionRecords, ∃ raw, r.ReadsRecords [(record, raw)] s t := by
  obtain ⟨record, raw, found, read, -⟩ := perform_readVersion_eq_ok.1 h
  exact ⟨record, List.mem_of_find?_eq_some found, raw, .cons read (.nil t)⟩

theorem readsRecords_readByteOrder {order : ByteOrder} (h : r.readByteOrder.perform s = (.ok order, t)) :
    ∃ records, records.map Prod.fst ⊆ [byteOrderRecord] ∧ r.ReadsRecords records s t := by
  unfold readByteOrder at h
  split at h
  · obtain ⟨raw, u, read, h⟩ := perform_bind_eq_ok.1 h
    refine ⟨[(byteOrderRecord, raw)], List.Subset.refl _, .cons read ?_⟩
    split at h
    · cases h
      exact .nil _
    · cases h
  · cases h
    exact ⟨[], List.nil_subset _, .nil _⟩

theorem perform_openArchive_eq_ok : openArchive.perform s = (.ok r, t) ↔ ∃ directory s₁ s₂,
    Zip.readDirectory.perform s = (.ok directory, s₁) ∧ r.members = membersOf directory ∧
      findRoot r.members = .ok r.root ∧ r.readVersion.perform s₁ = (.ok r.version, s₂) ∧
      r.readByteOrder.perform s₂ = (.ok r.byteOrder, t) := by
  constructor
  · intro h
    rw [openArchive, perform_bind_eq_ok] at h
    obtain ⟨directory, s₁, listed, h⟩ := h
    rw [perform_bind_eq_ok] at h
    obtain ⟨root, _, located, h⟩ := h
    obtain ⟨found, rfl⟩ := perform_ofExcept_eq_ok.1 located
    rw [perform_bind_eq_ok] at h
    obtain ⟨version, s₂, first, h⟩ := h
    rw [perform_bind_eq_ok] at h
    obtain ⟨order, _, second, h⟩ := h
    cases h
    exact ⟨directory, _, s₂, perform_describing_eq_ok.1 listed, rfl, found, first, second⟩
  · rintro ⟨directory, s₁, s₂, listed, members, found, first, second⟩
    obtain ⟨_, root, version, order⟩ := r
    cases members
    rw [openArchive, perform_bind_eq_ok]
    refine ⟨directory, s₁, perform_describing_eq_ok.2 listed, ?_⟩
    rw [perform_bind_eq_ok]
    refine ⟨root, s₁, perform_ofExcept_eq_ok.2 ⟨found, rfl⟩, ?_⟩
    rw [perform_bind_eq_ok]
    refine ⟨version, s₂, first, ?_⟩
    rw [perform_bind_eq_ok]
    exact ⟨order, t, second, rfl⟩

/-- To open an archive, its directory is read and then its version and byte order. -/
theorem readsRecords_openArchive (h : openArchive.perform s = (.ok r, t)) : ∃ directory s₁ records,
    (describing .openArchive Zip.readDirectory).perform s = (.ok directory, s₁) ∧
      r.members = membersOf directory ∧ r.ReadsRecords records s₁ t ∧
      records.map Prod.fst ⊆ versionRecords ++ [byteOrderRecord] := by
  obtain ⟨directory, s₁, s₂, listed, members, -, first, second⟩ := perform_openArchive_eq_ok.1 h
  obtain ⟨record, known, raw, reads⟩ := readsRecords_readVersion first
  obtain ⟨records, within, reads'⟩ := readsRecords_readByteOrder second
  refine ⟨directory, s₁, [(record, raw)] ++ records, perform_describing_eq_ok.2 listed, members,
    reads.append reads', ?_⟩
  rw [List.map_append]
  exact List.append_subset.2
    ⟨List.subset_append_of_subset_left _ (List.cons_subset.2 ⟨known, List.nil_subset _⟩),
      List.subset_append_of_subset_right _ within⟩

/-- To decode an archive that is open, its object stream is read. -/
theorem readRecord_of_decode {found : Decoded × Arena} (h : (r.decode config).perform s = (.ok found, t)) :
    ∃ bytes, (r.readRecord objectRecord).perform s = (.ok bytes, t) := by
  rw [decode, perform_bind_eq_ok] at h
  obtain ⟨bytes, u, read, h⟩ := h
  refine ⟨bytes, ?_⟩
  cases loaded : Pickle.Machine.load config (Arena.ofReader r) bytes with
  | mk outcome m =>
    simp only [loaded, perform_bind_eq_ok, perform_ofExcept_eq_ok] at h
    obtain ⟨_, _, ⟨-, rfl⟩, _, _, ⟨-, rfl⟩, h⟩ := h
    cases h
    exact read

/-- None of the records that come before the storages is a storage. -/
theorem storageRecord_notMem {names : List Text}
    (within : names ⊆ versionRecords ++ [byteOrderRecord] ++ [objectRecord]) (key : Text) :
    storageRecord key ∉ names := by
  intro hn
  have known := within hn
  simp only [versionRecords, List.cons_append, List.nil_append, List.mem_cons, List.not_mem_nil,
    or_false] at known
  obtain same | same | same | same := known
  all_goals exact storageRecord_ne (by decide) key same

/-- To open and decode an archive, no storage is read. -/
theorem readsRecords_decode {found : Decoded × Arena} (opened : openArchive.perform s = (.ok r, t))
    (decoded : (r.decode config).perform t = (.ok found, u)) : ∃ directory s₁ records,
    (describing .openArchive Zip.readDirectory).perform s = (.ok directory, s₁) ∧
      r.members = membersOf directory ∧ r.ReadsRecords records s₁ u ∧
      ∀ key, storageRecord key ∉ records.map Prod.fst := by
  obtain ⟨directory, s₁, records, listed, members, reads, within⟩ := readsRecords_openArchive opened
  obtain ⟨bytes, read⟩ := readRecord_of_decode decoded
  refine ⟨directory, s₁, records ++ [(objectRecord, bytes)], listed, members, reads.append (.cons read (.nil _)), ?_⟩
  rw [List.map_append]
  exact storageRecord_notMem (List.append_subset.2
    ⟨List.subset_append_of_subset_left _ within, List.subset_append_right _ _⟩)

end Reader

end Checkpoint.Archive
