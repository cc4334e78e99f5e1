import Checkpoint.Proofs.Pickle.Image
import Checkpoint.Proofs.Pickle.Traversal

/-! The storages of a stream.  A tensor is written around the use of its storage; a storage is registered
when it is used first, under the next number and with the type of the tensor, and stays so. -/

namespace Checkpoint.Pickle

open Effect

/-- The storages after the use of a tensor's. -/
def register (uses : List StorageUse) (t : Tensor) : List StorageUse :=
  if uses.any (·.storage == t.storage) then uses
  else uses ++ [{ key := Text.ofNat uses.length, storage := t.storage, dtype := t.dtype }]

/-- The storages of tensors, in the order of their first use. -/
def usesOf (tensors : List Tensor) : List StorageUse := tensors.foldl register []

section Uses

variable {tensors : List Tensor} {t : Tensor} {uses : List StorageUse}

theorem usesOf_concat (tensors : List Tensor) (t : Tensor) :
    usesOf (tensors ++ [t]) = register (usesOf tensors) t := by
  simp only [usesOf, List.foldl_append, List.foldl_cons, List.foldl_nil]

theorem prefix_register (uses : List StorageUse) (t : Tensor) : uses <+: register uses t := by
  unfold register
  split
  · exact List.prefix_rfl
  · exact List.prefix_append _ _

theorem map_storage_register (uses : List StorageUse) (t : Tensor) :
    (register uses t).map StorageUse.storage = uses.map StorageUse.storage ++
      if t.storage ∈ uses.map StorageUse.storage then [] else [t.storage] := by
  have found : (uses.any fun use => use.storage == t.storage) = true ↔
      t.storage ∈ uses.map StorageUse.storage := by
    simp [List.any_eq_true, List.mem_map]
  unfold register
  by_cases h : t.storage ∈ uses.map StorageUse.storage
  · rw [if_pos (found.2 h), if_pos h, List.append_nil]
  · rw [if_neg (mt found.1 h), if_neg h, List.map_append]
    rfl

/-- Each storage is there once, in the order of first use. -/
theorem map_storage_usesOf (tensors : List Tensor) :
    (usesOf tensors).map StorageUse.storage = (tensors.map Tensor.storage).eraseDups := by
  induction tensors using List.reverseRecOn with
  | nil => rfl
  | append_singleton tensors t ih =>
    rw [usesOf_concat, map_storage_register, ih, List.map_append, List.eraseDups_append]
    congr 1
    rw [List.map_singleton, List.removeAll, List.filter_singleton]
    by_cases h : t.storage ∈ tensors.map Tensor.storage
    · simp [h]
    · simp [h, List.eraseDups_cons]

theorem mem_storages_usesOf {storage : Nat} : storage ∈ (usesOf tensors).map StorageUse.storage ↔
    ∃ t ∈ tensors, t.storage = storage := by
  rw [map_storage_usesOf, List.mem_eraseDups, List.mem_map]

/-- A storage is registered once. -/
theorem register_of_mem (seen : t ∈ tensors) : register (usesOf tensors) t = usesOf tensors := by
  obtain ⟨use, hu, same⟩ := List.mem_map.1 (mem_storages_usesOf.2 ⟨t, seen, rfl⟩)
  have known : (usesOf tensors).any (·.storage == t.storage) = true :=
    List.any_eq_true.2 ⟨use, hu, beq_iff_eq.2 same⟩
  exact if_pos known

theorem nodup_storages_usesOf (tensors : List Tensor) :
    ((usesOf tensors).map StorageUse.storage).Nodup := by
  induction tensors using List.reverseRecOn with
  | nil => exact List.nodup_nil
  | append_singleton tensors t ih =>
    rw [usesOf_concat, map_storage_register]
    split
    · rwa [List.append_nil]
    · next absent =>
      refine List.nodup_append.2 ⟨ih, List.nodup_singleton _, ?_⟩
      rintro _ h _ here rfl
      exact absent (List.mem_singleton.1 here ▸ h)

theorem entered_register (h : Encoder.Entered (fun _ => True) uses) (t : Tensor) :
    Encoder.Entered (fun _ => True) (register uses t) := by
  unfold register
  split
  · exact h
  · exact h.concat trivial

/-- A storage keeps the type of the first tensor over it. -/
theorem find?_usesOf (tensors : List Tensor) (storage : Nat) :
    ((usesOf tensors).find? (·.storage == storage)).map StorageUse.dtype =
      (tensors.find? (·.storage == storage)).map Tensor.dtype := by
  induction tensors using List.reverseRecOn with
  | nil => rfl
  | append_singleton tensors t ih =>
    rw [usesOf_concat, List.find?_append]
    unfold register
    cases found : tensors.find? (·.storage == storage) with
    | some t' =>
      rw [found] at ih
      obtain ⟨use, hu, same⟩ := Option.map_eq_some_iff.1 ih
      split
      · rw [ih]
        rfl
      · rw [List.find?_append, hu, Option.some_or, Option.some_or, Option.map_some, Option.map_some, same]
    | none =>
      rw [found, Option.map_none, Option.map_eq_none_iff] at ih
      rw [Option.none_or]
      split
      · next seen =>
        obtain ⟨use, hu, same⟩ := List.any_eq_true.1 seen
        have other := List.find?_eq_none.1 ih use hu
        rw [eq_of_beq same] at other
        rw [ih, List.find?_singleton, if_neg other]
        rfl
      · rw [List.find?_append, ih, Option.none_or, List.find?_singleton, List.find?_singleton]
        dsimp only
        split <;> rfl

end Uses

namespace Encoder

/-- What is written of a tensor in front of the use of its storage. -/
def tensorOpening : Encoding Unit := do
  saveGlobal Constructor.rebuildTensorV2.module Constructor.rebuildTensorV2.name
  emit .mark

/-- The tuple that stands for the storage of some number. -/
def storageTuple (memory : Memory) (t : Tensor) (storageClass : Text) (n : Nat) : Encoding Unit :=
  saveTuple fresh [
    saveText .storageWord storageWord,
    saveGlobal storageModule storageClass,
    saveText (.storageKey n) (Text.ofNat n),
    saveText .locationWord locationWord,
    saveInt ((memory.buffer t.storage).length / t.dtype.size : Nat)]

/-- What is written of a tensor behind its storage. -/
def tensorClosing (t : Tensor) : Encoding Unit := do
  saveInt t.offset
  saveSizes t.shape
  saveSizes t.stride
  emit (.bool false)
  orderedDict
  memoizeFresh
  emit .tuple
  memoizeFresh
  emit .reduce

variable {memory : Memory} {t : Tensor} {storageClass : Text} {o : Identity}

theorem saveTuple_of_long {identity : Encoding Identity} {items : List (Encoding Unit)}
    (h : 3 < items.length) : saveTuple identity items = (emit .mark >>= fun _ => items.forM id >>= fun _ =>
      emit (tupleInstruction items.length) >>= fun _ => identity >>= memoize) := by
  unfold saveTuple
  split
  · cases h
  · exact if_pos h

theorem saveTensor_eq (h : t.dtype.storageClass? = some storageClass) :
    saveTensor memory o t = (tensorOpening >>= fun _ => useStorage memory t >>= fun n =>
      storageTuple memory t storageClass n >>= fun _ => emit .persistentId >>= fun _ =>
        tensorClosing t >>= fun _ => memoize o) := by
  have stored : saveStorage memory t storageClass = (useStorage memory t >>= fun n =>
      storageTuple memory t storageClass n >>= fun _ => emit .persistentId) := rfl
  unfold saveTensor tensorOpening tensorClosing
  rw [h]
  dsimp only
  have long : 3 < (tensorArguments memory t storageClass).length := by
    simp [tensorArguments]
  have whole : tupleInstruction (tensorArguments memory t storageClass).length = .tuple := rfl
  rw [saveTuple_of_long long, whole]
  simp only [tensorArguments, stored, List.forM_eq_forM, List.forM_cons, List.forM_nil, id, bind_assoc,
    pure_bind, memoizeFresh]

/-- A tensor's storage has been used, where it is not empty, by a tensor of another type first. -/
def Clashes (memory : Memory) (uses : List StorageUse) (t : Tensor) : Prop :=
  ∃ use, uses.find? (·.storage == t.storage) = some use ∧ use.dtype ≠ t.dtype ∧
    memory.buffer t.storage ≠ []

/-- The use of a storage is refused, or registers it. -/
theorem registers_useStorage {e : Encoder} {Q : Nat → Encoder → Prop} {E : Error → Encoder → Prop}
    (refused : Clashes memory e.storages t → E (.unexpectedStructure .mixedTypes) e)
    (used : ∀ n use, ¬ Clashes memory e.storages t → (register e.storages t)[n]? = some use →
      use.storage = t.storage → Q n { e with storages := register e.storages t }) :
    (useStorage memory t).Ensures e Q E := by
  unfold useStorage
  rw [ensures_bind, ensures_get]
  split
  · next n hn =>
    obtain ⟨inside, same, -⟩ := List.findIdx?_eq_some_iff_getElem.1 hn
    have found : e.storages.find? (·.storage == t.storage) = some e.storages[n] := by
      rw [List.find?_eq_some_iff_getElem]
      exact ⟨same, n, inside, rfl, fun j hj => by
        simpa using (List.findIdx?_eq_some_iff_getElem.1 hn).2.2 j hj⟩
    have seen : register e.storages t = e.storages :=
      if_pos (List.any_eq_true.2 ⟨_, List.getElem_mem inside, same⟩)
    have first : (e.storages[n]?.map StorageUse.dtype).getD t.dtype = e.storages[n].dtype := by
      rw [List.getElem?_eq_getElem inside, Option.map_some, Option.getD_some]
    have clashes : Clashes memory e.storages t ↔
        e.storages[n].dtype ≠ t.dtype ∧ (memory.buffer t.storage).length ≠ 0 := by
      simp only [Clashes, found, Option.some.injEq, exists_eq_left', ne_eq, List.length_eq_zero_iff]
    dsimp only
    rw [first]
    split
    · next clash => exact (ensures_bind _).2 ((ensures_throw _).2 (refused (clashes.2 clash)))
    · next free =>
      rw [← clashes] at free
      rw [ensures_pure]
      have here : (register e.storages t)[n]? = some e.storages[n] := by
        rw [seen, List.getElem?_eq_getElem inside]
      have done := used n _ free here (eq_of_beq same)
      rwa [seen] at done
  · next absent =>
    have unseen : register e.storages t = e.storages ++
        [{ key := Text.ofNat e.storages.length, storage := t.storage, dtype := t.dtype }] := by
      apply if_neg
      rw [List.any_eq_true]
      rintro ⟨use, hu, same⟩
      exact absurd (List.findIdx?_eq_none_iff.1 absent use hu) (by simp [same])
    simp only [ensures_bind, ensures_set, ensures_pure]
    rw [← unseen]
    refine used _ _ ?_ (by rw [unseen, List.getElem?_concat_length]) rfl
    rintro ⟨use, found, -⟩
    have none := List.findIdx?_eq_none_iff.1 absent use (List.mem_of_find?_eq_some found)
    have same := List.find?_some found
    simp_all

namespace Kept

variable {P : Error → Prop} {N : Nat → Prop} {I : Encoder → Prop}

theorem tensorOpening (k : Kept P N I) : Sustains P I tensorOpening :=
  (k.saveGlobal _ _).bind fun _ => k.emit .mark ⟨rfl, nofun⟩

theorem storageTuple (k : Kept P N I) (n : Nat)
    (count : ∀ error, intInstruction ((memory.buffer t.storage).length / t.dtype.size : Nat) = .error error →
      P error) : Sustains P I (storageTuple memory t storageClass n) := by
  apply k.saveTuple k.memoizeFresh
  simp only [List.forall_mem_cons]
  refine ⟨k.saveText ?_ nofun, k.saveGlobal _ _, k.saveText ?_ nofun, k.saveText ?_ nofun,
    k.saveInt count, List.forall_mem_nil _⟩
  · rintro _ ⟨⟩
    rfl
  · rintro _ ⟨⟩
    rfl
  · rintro _ ⟨⟩
    rfl

theorem tensorClosing (k : Kept P N I)
    (numbers : ∀ n ∈ t.offset :: (t.shape ++ t.stride), ∀ error, intInstruction (n : Nat) = .error error →
      P error) : Sustains P I (tensorClosing t) := by
  obtain ⟨offset, sizes⟩ := List.forall_mem_cons.1 numbers
  obtain ⟨shape, stride⟩ := List.forall_mem_append.1 sizes
  exact (k.saveInt offset).bind fun _ => (k.saveSizes shape).bind fun _ => (k.saveSizes stride).bind fun _ =>
    (k.emit (.bool false) ⟨rfl, nofun⟩).bind fun _ => k.orderedDict.bind fun _ =>
    k.memoizeFresh.bind fun _ => (k.emit .tuple ⟨rfl, nofun⟩).bind fun _ => k.memoizeFresh.bind fun _ =>
    k.emit .reduce ⟨rfl, nofun⟩

theorem storages_eq (uses : List StorageUse) :
    Kept (fun _ => True) (fun _ => True) fun e => e.storages = uses where
  overflow := trivial
  write _ _ same _ := same
  store _ _ _ same _ _ _ := same
  count _ _ same := same

/-- A tensor keeps what also references and the registration of its storage keep. -/
theorem saveTensor (k : Kept (fun _ => True) N I) {id : Nat} (node : N id)
    (refers : ∀ e, I e → I { e with output := { instruction := .persistentId } :: e.output })
    (registers : ∀ e, I e → I { e with storages := register e.storages t }) :
    Preserves I (saveTensor memory (.node id) t) := by
  cases h : t.dtype.storageClass? with
  | none =>
    simp only [Encoder.saveTensor, h]
    exact sustains_throw trivial
  | some storageClass =>
    rw [saveTensor_eq h]
    have used : Preserves I (useStorage memory t) := fun e he =>
      registers_useStorage (fun _ => trivial) fun _ _ _ _ _ => registers e he
    exact k.tensorOpening.bind fun _ => used.bind fun n =>
      (k.storageTuple n fun _ _ => trivial).bind fun _ => Sustains.bind (sustains_modify refers)
        fun _ => (k.tensorClosing fun _ _ _ _ => trivial).bind fun _ => k.memoizeNode node

end Kept

end Encoder

end Checkpoint.Pickle
