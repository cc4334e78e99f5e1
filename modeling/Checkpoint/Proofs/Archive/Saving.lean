import Checkpoint.Archive.Save
import Checkpoint.Proofs.Archive.Opening
import Checkpoint.Proofs.Pickle.StreamRoundTrip

/-! Saved archives: the records of a mapping make an archive that can be opened, with a record of its
own for each storage. -/

namespace Checkpoint

open Effect

namespace Pickle.Graph

variable {g g' : Graph}

theorem memory_addAll (g : Graph) (nodes : List Node) : (g.addAll nodes).2.memory = g.memory := by
  induction nodes generalizing g with
  | nil => rfl
  | cons n nodes ih => exact ih (g.add n).2

theorem memory_items {id : Nat} {items : List Nat} (h : g.items id = .ok (items, g')) :
    g'.memory = g.memory := by
  have added {nodes : List Node}
      (h : (Except.ok (g.addAll nodes) : Except Error _) = .ok (items, g')) :
      g'.memory = g.memory := by
    rw [← memory_addAll g nodes, Except.ok.inj h]
  unfold Graph.items at h
  split at h
  any_goals first | exact added h | cases h <;> rfl
  split at h
  · exact added h
  · cases h

theorem memory_pair {id : Nat} {p : Nat × Nat} (h : g.pair id = .ok (p, g')) :
    g'.memory = g.memory := by
  unfold Graph.pair at h
  rw [bind_eq_ok] at h
  obtain ⟨⟨items, g₁⟩, hi, h⟩ := h
  split at h
  · next same =>
    cases same
    cases h
    exact memory_items hi
  · cases h

theorem memory_enterPairs {entries entries' : List (Nat × Nat)} {items : List Nat}
    (h : g.enterPairs entries items = .ok (entries', g')) : g'.memory = g.memory := by
  induction items generalizing g entries with
  | nil =>
    cases h
    rfl
  | cons item items ih =>
    unfold Graph.enterPairs at h
    rw [bind_eq_ok] at h
    obtain ⟨⟨⟨key, value⟩, g₁⟩, hp, h⟩ := h
    dsimp only at h
    rw [bind_eq_ok] at h
    obtain ⟨entered, -, h⟩ := h
    exact (ih h).trans (memory_pair hp)

/-- The mapping that a graph is written as has the storages of the graph. -/
theorem memory_asOrdered {id top : Nat} (h : g.asOrdered id = .ok (top, g')) :
    g'.memory = g.memory := by
  unfold asOrdered at h
  split at h
  · cases h
    rfl
  · cases h
    rfl
  · cases h
    rfl
  · rw [bind_eq_ok] at h
    obtain ⟨⟨entries, g₁⟩, he, h⟩ := h
    rw [entriesOfPairs, bind_eq_ok] at he
    obtain ⟨⟨items, g₂⟩, hi, he⟩ := he
    cases h
    exact (memory_enterPairs he).trans (memory_items hi)

end Pickle.Graph

namespace Archive

open Pickle

def versionRecord : Text := "version"

/-- The records of an archive: the version, the object stream, the byte order if that is written,
and the storages. -/
def recordsOf (config : Config) (memory : Memory) (d : Graph.Dump) : List (Text × Bytes) :=
  (versionRecord, (Text.ofInt writtenVersion ++ "\n").utf8) :: (objectRecord, d.bytes) ::
    ((if config.writeByteOrder then [(byteOrderRecord, ByteOrder.host.name.utf8)] else []) ++
      d.storages.map fun use => (storageRecord use.key, memory.buffer use.storage))

/-- Saving a mapping is writing its records. -/
theorem save_eq (config : Config) (g : Graph) (id : Nat) : save config g id =
    (Effect.ofExcept (g.dump config id) >>= fun d => Writer.writing config
      ((recordsOf config g.memory d).forM fun record => Writer.writeRecord record.1 record.2)) := by
  unfold save
  congr 1
  funext d
  congr 1
  have storages : (do
      for use in d.storages do
        Writer.writeStorage use.key (g.memory.buffer use.storage)) =
      forM d.storages fun use =>
        Writer.writeRecord (storageRecord use.key) (g.memory.buffer use.storage) := by
    rw [← List.forM_eq_forM, ← forIn_eq_forM]
    simp only [Writer.writeStorage, bind_pure_comp, id_map']
  simp only [recordsOf, versionRecord, List.forM_eq_forM, List.forM_cons, List.forM_append, List.forM_map,
    ← storages, Writer.writeVersion]
  cases config.writeByteOrder <;> simp [Writer.writeByteOrder]

section Records

variable {config : Config} {memory : Memory} {d : Graph.Dump} {tensors : Tensor → Prop}

theorem IsName.of_check {t : Text}
    (h : t.points.any Text.isSurrogate = false ∧ (0 : CodePoint) ∉ t.points) : IsName t :=
  ⟨h.1, h.2⟩

theorem IsName.ofNat (n : Nat) : IsName (Text.ofNat n) where
  strict := by
    unfold Text.IsStrict
    rw [List.any_eq_false]
    intro c hc
    have digit := Text.val_of_mem_ofNat hc
    simp only [Text.isSurrogate, Bool.and_eq_true, decide_eq_true_eq]
    omega
  whole h := by
    have digit := Text.val_of_mem_ofNat h
    exact absurd digit.1 (by decide)

theorem map_key_eq {uses : List StorageUse} (entered : Encoder.Entered tensors uses) :
    uses.map StorageUse.key = (List.range uses.length).map Text.ofNat := by
  apply List.ext_getElem
  · simp
  · intro n h h'
    rw [List.length_map] at h
    rw [List.getElem_map, List.getElem_map, List.getElem_range]
    exact entered.keys n _ (List.getElem?_eq_getElem h)

theorem eq_of_key {uses : List StorageUse} (entered : Encoder.Entered tensors uses)
    {use use' : StorageUse} (hu : use ∈ uses) (hu' : use' ∈ uses) (key : use.key = use'.key) :
    use = use' := by
  obtain ⟨n, hn⟩ := List.mem_iff_getElem?.1 hu
  obtain ⟨n', hn'⟩ := List.mem_iff_getElem?.1 hu'
  rw [entered.keys n use hn, entered.keys n' use' hn'] at key
  obtain rfl := Text.ofNat_injective key
  exact Option.some.inj (hn.symm.trans hn')

theorem storageRecord_ne {name : Text} (h : storageFolder.points.isPrefixOf name.points = false)
    (key : Text) : storageRecord key ≠ name := by
  rintro rfl
  rw [storageRecord, Text.points_append, Bool.eq_false_iff] at h
  exact h (List.isPrefixOf_iff_prefix.2 (List.prefix_append _ _))

theorem mem_recordsOf {name : Text} {data : Bytes} : (name, data) ∈ recordsOf config memory d ↔
    (name = versionRecord ∧ data = (Text.ofInt writtenVersion ++ "\n").utf8) ∨
    (name = objectRecord ∧ data = d.bytes) ∨
    (config.writeByteOrder = true ∧ name = byteOrderRecord ∧ data = ByteOrder.host.name.utf8) ∨
    ∃ use ∈ d.storages, name = storageRecord use.key ∧ data = memory.buffer use.storage := by
  unfold recordsOf
  cases config.writeByteOrder <;> simp [eq_comm]

theorem map_fst_recordsOf : (recordsOf config memory d).map Prod.fst =
    versionRecord :: objectRecord :: ((if config.writeByteOrder then [byteOrderRecord] else []) ++
      (d.storages.map StorageUse.key).map storageRecord) := by
  unfold recordsOf
  cases config.writeByteOrder <;> simp

theorem isName_recordsOf (entered : Encoder.Entered tensors d.storages) :
    ∀ record ∈ recordsOf config memory d, IsName record.1 := by
  rintro ⟨name, data⟩ hr
  obtain ⟨rfl, _⟩ | ⟨rfl, _⟩ | ⟨_, rfl, _⟩ | ⟨use, hu, rfl, _⟩ := mem_recordsOf.1 hr
  · exact .of_check (t := versionRecord) (by decide)
  · exact .of_check (t := objectRecord) (by decide)
  · exact .of_check (t := byteOrderRecord) (by decide)
  · obtain ⟨n, hn⟩ := List.mem_iff_getElem?.1 hu
    have folder : IsName storageFolder := .of_check (by decide)
    rw [entered.keys n use hn]
    exact folder.append (.ofNat n)

theorem isName_record (named : IsName config.archiveName)
    (entered : Encoder.Entered tensors d.storages) :
    ∀ record ∈ recordsOf config memory d, IsName (rootOf config ++ record.1) :=
  fun record hr => (named.append (.of_check (by decide))).append (isName_recordsOf entered record hr)

theorem nodup_recordsOf (entered : Encoder.Entered tensors d.storages) :
    ((recordsOf config memory d).map Prod.fst).Nodup := by
  have keys : ((d.storages.map StorageUse.key).map storageRecord).Nodup := by
    rw [map_key_eq entered, List.map_map]
    apply List.nodup_range.map
    intro m n same
    exact Text.ofNat_injective (Text.append_left_cancel same)
  have apart (name : Text) (h : storageFolder.points.isPrefixOf name.points = false) :
      name ∉ (d.storages.map StorageUse.key).map storageRecord := by
    intro hn
    obtain ⟨key, _, same⟩ := List.mem_map.1 hn
    exact storageRecord_ne h key same
  have version := apart versionRecord (by decide)
  have object := apart objectRecord (by decide)
  have order := apart byteOrderRecord (by decide)
  rw [map_fst_recordsOf]
  cases config.writeByteOrder with
  | true =>
    change ([versionRecord, objectRecord, byteOrderRecord] ++ _).Nodup
    exact List.nodup_append.2 ⟨by decide, keys, by
      simp only [List.forall_mem_cons]
      exact ⟨fun _ hn same => version (same ▸ hn), fun _ hn same => object (same ▸ hn),
        fun _ hn same => order (same ▸ hn), nofun⟩⟩
  | false =>
    change ([versionRecord, objectRecord] ++ _).Nodup
    exact List.nodup_append.2 ⟨by decide, keys, by
      simp only [List.forall_mem_cons]
      exact ⟨fun _ hn same => version (same ▸ hn), fun _ hn same => object (same ▸ hn), nofun⟩⟩

theorem openable_recordsOf (entered : Encoder.Entered tensors d.storages) :
    Openable (recordsOf config memory d) .host where
  distinct := nodup_recordsOf entered
  object := by
    rw [map_fst_recordsOf]
    exact List.mem_cons_of_mem _ List.mem_cons_self
  plain := by
    rw [List.mem_map]
    rintro ⟨⟨name, data⟩, hr, same⟩
    obtain rfl : name = scriptRecord := same
    obtain ⟨other, _⟩ | ⟨other, _⟩ | ⟨_, other, _⟩ | ⟨use, _, other, _⟩ := mem_recordsOf.1 hr
    · exact absurd other (by decide)
    · exact absurd other (by decide)
    · exact absurd other (by decide)
    · exact storageRecord_ne (by decide) _ other.symm
  version := by
    refine ⟨versionRecord, _, 3, ?_, mem_recordsOf.2 (.inl ⟨rfl, rfl⟩), by decide +kernel, by decide,
      by decide⟩
    exact List.find?_cons_of_pos (decide_eq_true (by
      rw [map_fst_recordsOf]
      exact List.mem_cons_self))
  order := by
    split
    · next declared =>
      obtain ⟨⟨name, data⟩, hr, same⟩ := List.mem_map.1 declared
      obtain rfl : name = byteOrderRecord := same
      obtain ⟨other, _⟩ | ⟨other, _⟩ | ⟨_, _, rfl⟩ | ⟨use, _, other, _⟩ := mem_recordsOf.1 hr
      · exact absurd other (by decide)
      · exact absurd other (by decide)
      · exact ⟨_, hr, by decide +kernel⟩
      · exact absurd other.symm (storageRecord_ne (by decide) _)
    · rfl

end Records

/-- On a stream without faults the archive of a mapping is written as its records, if they fit. -/
theorem ensures_save {config : Config} {g : Graph} {id : Nat} {d : Graph.Dump} {s : Stream}
    {tensors : Tensor → Prop} (h : s.Healthy) (hd : g.dump config id = .ok d)
    (named : IsName config.archiveName) (entered : Encoder.Entered tensors d.storages) :
    (save config g id).Ensures s
      (fun names t => names = (recordsOf config g.memory d).map (rootOf config ++ ·.1) ∧
        ∃ content, t.Behind s content ∧ Finished (rootOf config) (recordsOf config g.memory d) content)
      (fun e _ => e.IsOverflow ∧ ¬ Writer.Fits config s.position (recordsOf config g.memory d)) := by
  rw [save_eq, hd, ensures_bind, ensures_ofExcept_ok]
  exact Writer.ensures_writing h (isName_record named entered) (nodup_recordsOf entered)

section Refusal

variable {config : Config} {g : Graph} {id : Nat} {s t : Stream} {names : List Text}

/-- A record cannot be written under a name that has no strict form. -/
theorem fails_writeRecord {w : Writer} {name : Text} (data : Bytes)
    (whole : (0 : CodePoint) ∉ (w.root ++ name).points) (lenient : ¬ (w.root ++ name).IsStrict) :
    (Writer.writeRecord name data).Fails w := by
  have refused (m : Zip.Member) (hm : m.name = w.root ++ name) (r : Unit) :
      Zip.Writer.checkHeader m ≠ .ok r := by
    have stored : m.storedName = w.root ++ name := by
      rw [storedName_of_whole (hm ▸ whole), hm]
    have none : (w.root ++ name).strictUtf8? = none :=
      if_pos (by simpa only [Text.IsStrict, Bool.not_eq_false] using lenient)
    rw [Zip.Writer.checkHeader, stored, none]
    rintro ⟨⟩
  unfold Writer.writeRecord
  apply (ensures_bind _).2
  rw [ensures_get]
  dsimp only
  split
  · exact (fails_throw _).bind _
  · apply fails_bind
    intro extra w'
    apply Fails.bind
    apply Fails.describing
    apply Fails.focus
    unfold Zip.Writer.add
    apply fails_bind
    intro z z'
    dsimp only
    split
    · exact (fails_throw _).bind _
    · iterate 2
        apply fails_bind
        intro _ _
      apply Fails.bind
      exact fails_ofExcept (refused _ rfl)

theorem fails_writing {body : Writer.Writing Unit} (h : ∀ w, w.config = config → body.Fails w) :
    (Writer.writing config body).Fails s := by
  have created : (Writer.create config).Ensures s (fun w _ => w.config = config)
      fun _ _ => True := by
    unfold Writer.create
    exact (ensures_bind _).2 (ensures_of_forall (fun _ _ => (ensures_pure _).2 rfl) fun _ _ => trivial)
  unfold Writer.writing
  apply (ensures_bind _).2
  apply created.post
  intro w t hw
  have failed := (h w hw).andFinally Writer.close
  split
  next result w' hp =>
  cases result with
  | ok _ => exact absurd hp (failed.ne_ok _ _)
  | error e =>
    rw [ensures_bind, ensures_set, ensures_bind, ensures_ofExcept_error]
    trivial

theorem isName_of_save (saved : (save config g id).perform s = (.ok names, t))
    (whole : (0 : CodePoint) ∉ config.archiveName.points) : IsName config.archiveName := by
  refine ⟨?_, whole⟩
  by_contra lenient
  have failed : (save config g id).Fails s := by
    rw [save_eq]
    apply fails_bind
    intro d s'
    apply fails_writing
    intro w hw
    apply Fails.bind
    have root : w.root = rootOf config := congrArg rootOf hw
    apply fails_writeRecord
    · rw [root, Text.points_append, rootOf, Text.points_append]
      simp only [List.mem_append, not_or]
      exact ⟨⟨whole, by decide⟩, by decide⟩
    · rw [root]
      intro strict
      apply lenient
      rw [Text.IsStrict, Text.points_append, rootOf, Text.points_append, List.any_append,
        List.any_append] at strict
      simp only [Bool.or_eq_false_iff] at strict
      exact strict.1.1
  exact failed.ne_ok _ _ saved

end Refusal

end Archive

end Checkpoint
