import Checkpoint.Proofs.Archive.Abstention
import Checkpoint.Proofs.Pickle.Calls
import Checkpoint.Proofs.Pickle.Refusals

/-! The storages of a saved mapping.  They are numbered in the order of their first use, every reference
to one says its number, and each has one record of its own. -/

namespace Checkpoint

open Effect

namespace Pickle

open Encoder

variable {config : Config} {g g' : Graph} {id top : Nat} {d : Graph.Dump} {entries : List (Nat × Nat)}
  {attributes : List (Text × Nat)} {tensors : List Tensor}

/-- Behind some tensors, attributes use the storages of more tensors. -/
theorem Encoder.registers_saveAttributes (config : Config) (g : Graph) (fuel : Nat)
    (attributes : List (Text × Nat)) (tensors : List Tensor) :
    Preserves (fun e => ∃ more, e.storages = usesOf (tensors ++ more))
      (saveAttributes config g fuel attributes) := by
  have kept := Kept.exists_of_forall fun more => Kept.storages_eq (usesOf (tensors ++ more))
  have tensor (n : Nat) (t : Tensor) : Preserves (fun e => ∃ more, e.storages = usesOf (tensors ++ more))
      (once (.node n) (saveTensor g.memory (.node n) t)) := by
    apply kept.once
    intro e he _
    refine kept.saveTensor trivial (fun _ he => he) ?_ e he
    rintro e ⟨more, he⟩
    exact ⟨more ++ [t], by rw [he, ← List.append_assoc, usesOf_concat]⟩
  exact kept.saveAttributes (fun _ => trivial) fun a _ =>
    kept.save config fuel (fun _ _ _ => trivial) fun n t _ _ => tensor n t

/-- The storages of a dumped mapping are those of its tensors, in order, and then those of more tensors
in its attributes. -/
theorem Graph.exists_usesOf_of_dump (ha : g.asOrdered id = .ok (top, g'))
    (ordered : g'.node top = .ordered entries attributes) (holding : Holding g' entries tensors)
    (h : g.dump config id = .ok d) :
    ∃ more, d.storages = usesOf (tensors ++ more) ∧ (attributes = [] → more = []) := by
  obtain ⟨top', g'', e, ha', written, rfl⟩ := Graph.dump_eq_ok.1 h
  cases ha.symm.trans ha'
  have any : ∀ t ∈ tensors, Measured (fun _ => True) g'.memory t := fun _ _ =>
    ⟨fun _ _ => trivial, fun _ _ _ _ => trivial⟩
  have outcome : (g'.stream config top).Ensures {} (fun _ e => ∃ more,
      e.storages = usesOf (tensors ++ more) ∧ (attributes = [] → more = [])) fun _ _ => True := by
    refine holding.ensures_stream trivial (fun _ => trivial) ordered any ?_ fun _ _ _ => trivial
    intro e fuel _ met
    have start : e.storages = usesOf (tensors ++ []) := by
      rw [List.append_nil]
      exact met.storages
    cases attributes with
    | nil => exact (ensures_modify _).2 ⟨[], start, fun _ => rfl⟩
    | cons a attributes =>
      have registers := registers_saveAttributes config g' fuel (a :: attributes) tensors
      have stops : Preserves (fun e => ∃ more, e.storages = usesOf (tensors ++ more)) (emit .stop) :=
        sustains_modify fun _ he => he
      apply (registers.bind (fun _ => stops) e ⟨[], start⟩).post
      rintro _ e' ⟨more, he'⟩
      exact ⟨more, he', nofun⟩
  exact outcome.of_ok written

end Pickle

namespace Archive

open Pickle

section Records

variable {config : Config} {memory : Memory} {d : Graph.Dump}

/-- The records in the folder of storages are one for each storage, in order. -/
theorem filter_recordsOf : (recordsOf config memory d).filter (fun record =>
    record.1.startsWith storageFolder) = d.storages.map fun use =>
      (storageRecord use.key, memory.buffer use.storage) := by
  have storage (use : StorageUse) : (storageRecord use.key).startsWith storageFolder = true :=
    List.isPrefixOf_iff_prefix.2 (List.prefix_append _ _)
  have version : versionRecord.startsWith storageFolder = false := by decide
  have object : objectRecord.startsWith storageFolder = false := by decide
  have order : byteOrderRecord.startsWith storageFolder = false := by decide
  have storages : (d.storages.map fun use => (storageRecord use.key, memory.buffer use.storage)).filter
      (fun record => record.1.startsWith storageFolder) = d.storages.map fun use =>
        (storageRecord use.key, memory.buffer use.storage) := by
    rw [List.filter_eq_self, List.forall_mem_map]
    exact fun use _ => storage use
  unfold recordsOf
  cases config.writeByteOrder <;> simp [version, object, order, storages]

end Records

/-- What refuses a record is never that a name is taken. -/
theorem Writer.refusedBy_ne_duplicateMember (config : Config) (name : Text) :
    RefusedBy (fun e => ∀ taken, e ≠ .duplicateMember taken) config name where
  padding w _ e refused taken := by
    rintro rfl
    unfold paddingFor at refused
    split at refused
    · cases refused
    split at refused
    · cases refused
    unfold padding at refused
    split at refused
    · cases refused
    dsimp only at refused
    split at refused <;> cases refused
  header _ _ m _ _ e refused taken := by
    rintro rfl
    unfold Zip.Writer.checkHeader at refused
    repeat' split at refused
    all_goals cases refused

variable {config : Config} {g g' : Graph} {id top : Nat} {d : Graph.Dump} {entries : List (Nat × Nat)}
  {attributes : List (Text × Nat)} {tensors : List Tensor}

/-- The storages of a mapping that is dumped have their numbers as keys, each storage in the order of first
use; every reference says the key of its own tensor's storage.  When the mapping is saved there is one
record for each key, with the whole storage, and no record is refused because its name is taken. -/
theorem storages_numbered (ha : g.asOrdered id = .ok (top, g'))
    (ordered : g'.node top = .ordered entries attributes) (holding : Encoder.Holding g' entries tensors)
    (h : g.dump config id = .ok d) :
    d.storages.map StorageUse.key = (List.range d.storages.length).map Text.ofNat ∧
    (d.storages.map StorageUse.storage).Nodup ∧
    (∃ more, d.storages.map StorageUse.storage = ((tensors ++ more).map Tensor.storage).eraseDups ∧
      (attributes = [] → more = [])) ∧
    Linked g' d.storages d.written ∧
    (recordsOf config g.memory d).filter (fun record => record.1.startsWith storageFolder) =
      d.storages.map (fun use => (storageRecord use.key, g.memory.buffer use.storage)) ∧
    (save config g id = Writer.writing config
      ((recordsOf config g.memory d).forM fun record => Writer.writeRecord record.1 record.2)) ∧
    (∀ s names t, s.Healthy → IsName config.archiveName → (save config g id).perform s = (.ok names, t) →
      names = (recordsOf config g.memory d).map (rootOf config ++ ·.1) ∧
      ∃ content, t.Behind s content ∧ Finished (rootOf config) (recordsOf config g.memory d) content) ∧
    ∀ s e t, (save config g id).perform s = (.error e, t) → ∀ name, e ≠ .duplicateMember name := by
  have entered := Graph.entered_of_dump h
  obtain ⟨more, storages, none⟩ := Graph.exists_usesOf_of_dump ha ordered holding h
  have saved : save config g id = Writer.writing config
      ((recordsOf config g.memory d).forM fun record => Writer.writeRecord record.1 record.2) := by
    rw [save_eq, h]
    exact pure_bind d _
  refine ⟨map_key_eq entered, ?_, ⟨more, ?_, none⟩, Graph.linked_of_dump ha h, filter_recordsOf, saved, ?_, ?_⟩
  · rw [storages]
    exact nodup_storages_usesOf _
  · rw [storages, map_storage_usesOf]
  · intro s names t healthy named done
    exact (ensures_save healthy h named entered).of_ok done
  · intro s e t failed
    rw [saved] at failed
    have fault (e : Error) (he : e.IsStreamFault) (name : Text) : e ≠ .duplicateMember name := by
      rintro rfl
      exact he
    exact (Writer.failsBy_writing fault (fun _ _ => Writer.refusedBy_ne_duplicateMember config _)
      (nodup_recordsOf entered) s).of_error failed

/-- Views of two storages and of one without bytes, and one of them under a second name. -/
def sharing : Graph where
  nodes := #[.ordered [(1, 2), (3, 4), (5, 6), (7, 8), (9, 2)] [], .text "base",
    .tensor { dtype := .int16, shape := [2], stride := [1], offset := 0, storage := 1 }, .text "other",
    .tensor { dtype := .float32, shape := [1], stride := [1], offset := 0, storage := 0 }, .text "view",
    .tensor { dtype := .int16, shape := [1], stride := [1], offset := 1, storage := 1 }, .text "none",
    .tensor { dtype := .bool, shape := [0], stride := [1], offset := 0, storage := 2 }, .text "again"]
  memory := ⟨[[0, 0, 128, 63], [7, 0, 9, 0], []]⟩

theorem storages_numbered_sharing : ∃ d, sharing.dump {} 0 = .ok d ∧
    d.storages.map StorageUse.key = ["0", "1", "2"] ∧ d.storages.map StorageUse.storage = [1, 0, 2] ∧
    Linked sharing d.storages d.written ∧
    ∀ s e t, (save {} sharing 0).perform s = (.error e, t) → ∀ name, e ≠ .duplicateMember name := by
  have dumped : (sharing.dump {} 0).toOption.map (·.storages.length) = some 3 := by
    decide +kernel
  obtain ⟨d, hd, length⟩ := exists_ok_of_map dumped
  obtain ⟨keys, -, ⟨more, storages, none⟩, linked, -, -, -, free⟩ := storages_numbered
    (rfl : sharing.asOrdered 0 = .ok (0, sharing)) rfl
    (.cons ⟨⟨_, rfl⟩, rfl⟩ (.cons ⟨⟨_, rfl⟩, rfl⟩ (.cons ⟨⟨_, rfl⟩, rfl⟩ (.cons ⟨⟨_, rfl⟩, rfl⟩
      (.cons ⟨⟨_, rfl⟩, rfl⟩ .nil))))) hd
  rw [none rfl] at storages
  exact ⟨d, hd, by rw [keys, length]; decide, storages.trans (by decide), linked, free⟩

end Archive

end Checkpoint
