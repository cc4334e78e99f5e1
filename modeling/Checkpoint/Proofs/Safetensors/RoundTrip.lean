import Checkpoint.Proofs.Safetensors.Reading
import Checkpoint.Proofs.Safetensors.Writing
import Mathlib.Data.List.GetD

/-! The round trip of safetensors files: what is written for tensors is read with the same names, types,
shapes and elements, and with the same metadata. -/

namespace Checkpoint.Safetensors

open Effect Checkpoint.Stream

/-! ### What is read -/

/-- A tensor is that of a part of the payload, in row-major layout over a buffer of its own. -/
def ReadAs (memory : Memory) (part : Entry × Bytes) (named : Text × Tensor) : Prop :=
  named.1 = part.1.name ∧ ∃ storage, memory.buffer storage = part.2 ∧
    named.2 = Memory.rowMajor part.1.dtype part.1.shape storage

theorem foldl_addTensor (state : StateDict) (parts : List (Entry × Bytes)) :
    let loaded := parts.foldl addTensor state
    loaded.memory.buffers = state.memory.buffers ++ parts.map Prod.snd ∧
      ∃ tensors, loaded.tensors = state.tensors ++ tensors ∧
        List.Forall₂ (ReadAs loaded.memory) parts tensors := by
  induction parts generalizing state with
  | nil => exact ⟨(List.append_nil _).symm, [], (List.append_nil _).symm, .nil⟩
  | cons part parts ih =>
    obtain ⟨buffers, tensors, listed, read⟩ := ih (addTensor state part)
    have added : (addTensor state part).memory.buffers = state.memory.buffers ++ [part.2] := rfl
    rw [added, List.append_assoc] at buffers
    refine ⟨buffers, (part.1.name, Memory.rowMajor part.1.dtype part.1.shape
      state.memory.buffers.length) :: tensors, ?_, .cons ⟨rfl, _, ?_, rfl⟩ read⟩
    · rw [List.foldl_cons, listed]
      exact List.append_assoc ..
    · rw [Memory.buffer, List.foldl_cons, buffers, List.getD_append_right _ _ _ _ (Nat.le_refl _),
        Nat.sub_self]
      rfl

theorem stateOf_read (payload : Bytes) (entries : List Entry) :
    List.Forall₂ (ReadAs (stateOf payload entries).memory)
      (entries.map fun e => (e, e.dataIn payload)) (stateOf payload entries).tensors := by
  obtain ⟨-, tensors, listed, read⟩ := foldl_addTensor {} (entries.map fun e => (e, e.dataIn payload))
  rw [stateOf, listed]
  exact read

/-! ### What has been written -/

/-- The same name, type, shape and elements in row-major order. -/
def SameElements (memory memory' : Memory) (named named' : Text × Tensor) : Prop :=
  named'.1 = named.1 ∧ named'.2.dtype = named.2.dtype ∧ named'.2.shape = named.2.shape ∧
    memory'.elements named'.2 = memory.elements named.2

section Files

variable {config : Config} {memory : Memory} {metadata : Option (List (Text × Text))}
  {tensors : List (Text × Tensor)}

/-- An entry describes the elements of a tensor. -/
def Describes (memory : Memory) (payload : Bytes) (e : Entry) (named : Text × Tensor) : Prop :=
  e.Names named ∧ e.dataIn payload = (memory.elements named.2).flatten

theorem layOut_describes (held : ∀ named ∈ tensors, memory.Holds named.2) (before : Bytes) :
    List.Forall₂ (Describes memory (before ++ payloadOf memory tensors))
      (layOut before.length tensors) tensors := by
  induction tensors generalizing before with
  | nil => exact .nil
  | cons named tensors ih =>
    rw [List.forall_mem_cons] at held
    have length := held.1.length_flatten
    have rest := ih held.2 (before ++ (memory.elements named.2).flatten)
    rw [List.length_append, length, List.append_assoc] at rest
    refine .cons ⟨⟨rfl, rfl, rfl, rfl⟩, ?_⟩ rest
    change ((before ++ ((memory.elements named.2).flatten ++ payloadOf memory tensors)).drop
      before.length).take (before.length + named.2.numel * named.2.dtype.size - before.length) = _
    rw [List.drop_left, Nat.add_sub_cancel_left, ← length, List.take_left]

/-- What an entry describes is read as elements of the tensor that it describes. -/
theorem Describes.sameElements {memory' : Memory} {payload : Bytes} {e : Entry}
    {named named' : Text × Tensor} (h : Describes memory payload e named)
    (held : memory.Holds named.2) (read : ReadAs memory' (e, e.dataIn payload) named') :
    SameElements memory memory' named named' := by
  obtain ⟨⟨name, dtype, shape, -⟩, data⟩ := h
  obtain ⟨same, storage, buffer, tensor⟩ := read
  rw [dtype, shape] at tensor
  refine ⟨same.trans name, by rw [tensor]; rfl, by rw [tensor]; rfl, ?_⟩
  rw [tensor]
  exact Memory.elements_rowMajor (buffer.trans data) (memory.length_elements _) held.length_of_mem

/-- What is read for entries has the elements of the tensors that they describe. -/
theorem sameElements_stateOf {payload : Bytes} {entries : List Entry}
    (described : List.Forall₂ (Describes memory payload) entries tensors)
    (held : ∀ named ∈ tensors, memory.Holds named.2) :
    List.Forall₂ (SameElements memory (stateOf payload entries).memory) tensors
      (stateOf payload entries).tensors := by
  have read := stateOf_read payload entries
  generalize stateOf payload entries = loaded at read ⊢
  rw [List.forall₂_map_left_iff] at read
  obtain ⟨length, described⟩ := List.forall₂_iff_get.1 described
  obtain ⟨length', read⟩ := List.forall₂_iff_get.1 read
  refine List.forall₂_iff_get.2 ⟨length.symm.trans length', fun i hi hi' => ?_⟩
  have inside : i < entries.length := length ▸ hi
  exact (described i inside hi).sameElements (held _ (List.get_mem ..)) (read i inside hi')

/-- A tensor that can be written and read: without elements, its shape has a row-major layout. -/
structure Portable (memory : Memory) (t : Tensor) : Prop where
  flat : Flat memory t
  layable : t.numel = 0 → Shape.requireContiguous t.shape = .ok ()

theorem machineLimit_le_printable : machineLimit ≤ 10 ^ Decimal.digitLimit :=
  Nat.le_trans (by decide : machineLimit ≤ 10 ^ 19) (Nat.pow_le_pow_right (by decide) (by decide))

/-- The numbers in the shape of a tensor without elements are machine numbers, as they are in any other. -/
def Measured (t : Tensor) : Prop := t.numel = 0 → ∀ n ∈ t.shape, n < machineLimit

theorem Portable.measured {t : Tensor} (h : Portable memory t) : Measured t := by
  intro none
  have layable := h.layable none
  rw [Shape.requireContiguous, bind_eq_ok] at layable
  obtain ⟨_, required, -⟩ := layable
  exact Shape.numbers_lt_of_require required

theorem exact_headerOf (nameable : Nameable metadata tensors)
    (tagged : ∀ named ∈ tensors, named.2.dtype.tag?.isSome = true)
    (measured : ∀ named ∈ tensors, Measured named.2)
    (small : payloadSize (inNameOrder tensors) < machineLimit) : (headerOf metadata tensors).Exact where
  distinct := by
    rw [names_headerOf]
    exact (List.mergeSort_perm _ _).nodup_iff.2 nameable.distinct
  unreserved := by
    rw [names_headerOf, Text.sort, List.mem_mergeSort]
    exact nameable.unreserved
  entries e he := by
    obtain ⟨named, hn, names⟩ := exists_of_forall₂ (layOut_names 0 (inNameOrder tensors)) he
    have size := names.size_eq
    have ordered := names.ordered
    have within := (tiles_layOut 0 (inNameOrder tensors)).stop_le ordered_layOut e he
    have dims : ∀ n ∈ e.shape, n < machineLimit := by
      intro n hm
      rw [names.2.2.1] at hm
      by_cases full : named.2.numel = 0
      · exact measured named (mem_inNameOrder.1 hn) full n hm
      · have bound : n ≤ named.2.numel := Shape.le_count full n hm
        have bytes : named.2.numel ≤ named.2.numel * named.2.dtype.size :=
          Nat.le_mul_of_pos_right _ named.2.dtype.size_pos
        rw [Entry.size] at size
        omega
    refine ⟨?_, ordered, ?_⟩
    · rw [names.2.1]
      exact tagged named (mem_inNameOrder.1 hn)
    · simp only [List.forall_mem_cons]
      have printable {n : Nat} (h : n < machineLimit) : n < 10 ^ Decimal.digitLimit :=
        Nat.lt_of_lt_of_le h machineLimit_le_printable
      exact ⟨printable (by omega), printable (by omega), fun n hn => printable (dims n hn)⟩
  keys := nameable.keys

/-- The header of a file is read wherever the file is offered. -/
theorem ensures_readHeader_written {Q : Header → Stream → Prop} {E : Error → Stream → Prop} {u : Stream}
    (nameable : Nameable metadata tensors) (flat : ∀ named ∈ tensors, Flat memory named.2)
    (measured : ∀ named ∈ tensors, Measured named.2)
    (fits : (headerOf metadata tensors).body.length ≤ config.maxHeaderSize)
    (hu : u.Offers (fileOf memory metadata tensors))
    (hq : ∀ calls, (headerOf metadata tensors).validate
        (some (payloadOf memory (inNameOrder tensors)).length) = .ok () →
      (u.moved calls (Header.lengthSize + (headerOf metadata tensors).body.length)).Offers
        (payloadOf memory (inNameOrder tensors)) →
      Q (headerOf metadata tensors)
        (u.moved calls (Header.lengthSize + (headerOf metadata tensors).body.length))) :
    (readHeader config).Ensures u Q E := by
  have length := length_payloadOf fun named hn => (flat named (mem_inNameOrder.1 hn)).held
  have tagged : ∀ named ∈ tensors, named.2.dtype.tag?.isSome = true := fun named hn =>
    (flat named hn).tagged
  have small : payloadSize (inNameOrder tensors) < machineLimit := by
    have whole := hu.length
    have limit := hu.lt_sizeLimit
    rw [fileOf, List.length_append, length] at whole
    unfold sizeLimit at limit
    unfold machineLimit
    omega
  have valid {held : Option Int} (h : ∀ n ∈ held, (payloadSize (inNameOrder tensors) : Int) = n) :
      (headerOf metadata tensors).validate held = .ok () := by
    refine Header.validate_eq_ok.2 ⟨fun e he => ?_, payloadSize (inNameOrder tensors), ?_, h⟩
    · obtain ⟨named, -, names⟩ := exists_of_forall₂ (layOut_names 0 (inNameOrder tensors)) he
      exact names.size_eq_needed
    · rw [headerOf, inFileOrder_layOut]
      simpa only [Nat.zero_add] using tiles_layOut 0 (inNameOrder tensors)
  apply ensures_readHeader hu fits
  · apply Header.decode_body (exact_headerOf nameable tagged measured small)
      (strict_headerOf nameable tagged)
    apply valid
    unfold heldBy
    rw [length]
    split
    · rintro _ ⟨⟩
      rfl
    · rintro _ ⟨⟩
  · intro calls
    apply hq
    · apply valid
      rw [length]
      rintro _ ⟨⟩
      rfl
    · have front : Header.lengthSize + (headerOf metadata tensors).body.length =
          (Bytes.littleEndian Header.lengthSize (headerOf metadata tensors).body.length ++
            (headerOf metadata tensors).body).length := by
        rw [List.length_append, Bytes.length_littleEndian]
      rw [front]
      exact hu.moved calls

/-- A file is read as a header and a state wherever it is offered. -/
theorem ensures_readHeader_fileOf {Q : Header → Stream → Prop} {E : Error → Stream → Prop} {u : Stream}
    (nameable : Nameable metadata tensors) (portable : ∀ named ∈ tensors, Portable memory named.2)
    (fits : (headerOf metadata tensors).body.length ≤ config.maxHeaderSize)
    (hu : u.Offers (fileOf memory metadata tensors))
    (hq : ∀ t, t.Offers (payloadOf memory (inNameOrder tensors)) →
      (headerOf metadata tensors).validate (some (payloadOf memory (inNameOrder tensors)).length) =
        .ok () → Q (headerOf metadata tensors) t) :
    (readHeader config).Ensures u Q E :=
  ensures_readHeader_written nameable (fun named hn => (portable named hn).flat)
    (fun named hn => (portable named hn).measured) fits hu fun _ valid offers => hq _ offers valid

theorem layable_headerOf (portable : ∀ named ∈ tensors, Portable memory named.2) {e : Entry}
    (he : e ∈ (headerOf metadata tensors).entries) (none : e.size = 0) :
    Shape.requireContiguous e.shape = .ok () := by
  obtain ⟨named, hn, names⟩ := exists_of_forall₂ (layOut_names 0 (inNameOrder tensors)) he
  rw [names.2.2.1]
  apply (portable named (mem_inNameOrder.1 hn)).layable
  rw [names.size_eq] at none
  exact (Nat.mul_eq_zero.1 none).resolve_right (Nat.ne_of_gt named.2.dtype.size_pos)

/-- Contiguous tensors are written as a file that gives them back, wherever it is offered: the names in
the order of their code points, each with the same type, shape and elements, and the same metadata. -/
theorem read_written {s : Stream} (steady : s.Steady) (nameable : Nameable metadata tensors)
    (portable : ∀ named ∈ tensors, Portable memory named.2)
    (fits : (headerOf metadata tensors).body.length ≤ config.maxHeaderSize) :
    ∃ written t,
      (save config memory (metadata.map textsOf) tensors).perform s = (.ok written.length, t) ∧
      t.content = overwrite s.content s.position written ∧
      ∀ u : Stream, u.Offers written →
        (∃ header u', (readHeader config).perform u = (.ok header, u') ∧
          header.names = Text.sort (tensors.map Prod.fst) ∧ header.metadata = metadata) ∧
        ∃ loaded u', (load config none).perform u = (.ok loaded, u') ∧
          loaded.names = Text.sort (tensors.map Prod.fst) ∧
          List.Forall₂ (SameElements memory loaded.memory) (inNameOrder tensors) loaded.tensors := by
  have held : ∀ named ∈ inNameOrder tensors, memory.Holds named.2 := fun named hn =>
    (portable named (mem_inNameOrder.1 hn)).flat.held
  have saves : (save config memory (metadata.map textsOf) tensors).Ensures s
      (fun total t => total = (fileOf memory metadata tensors).length ∧
        t.content = overwrite s.content s.position (fileOf memory metadata tensors))
      fun _ _ => False :=
    ensures_save steady nameable (fun named hn => (portable named hn).flat) fits fun _ => ⟨rfl, rfl⟩
  obtain ⟨total, t, saved, rfl, content⟩ := saves.exists_ok
  refine ⟨fileOf memory metadata tensors, t, saved, content, fun u hu => ⟨?_, ?_⟩⟩
  · apply Ensures.exists_ok
    apply ensures_readHeader_fileOf nameable portable fits hu
    intro t _ _
    exact ⟨names_headerOf metadata tensors, rfl⟩
  · apply Ensures.exists_ok
    unfold load
    rw [ensures_bind]
    apply ensures_readHeader_fileOf nameable portable fits hu
    intro t offers valid
    apply ensures_loadPayload offers valid ordered_layOut
    · exact fun e he => layable_headerOf portable (Header.mem_inFileOrder.1 he)
    · intro _ _
      have selected : (headerOf metadata tensors).selected none = layOut 0 (inNameOrder tensors) :=
        inFileOrder_layOut metadata
      have same := sameElements_stateOf (layOut_describes held []) held
      rw [selected]
      refine ⟨?_, same⟩
      rw [StateDict.names, ← map_fst_inNameOrder]
      exact (map_eq_map_of_forall₂ same fun _ _ h => h.1.symm).symm

end Files

/-- A matrix, a tensor without elements and a number, not in the order of their names. -/
def mixedTensors : List (Text × Tensor) := [
  ("weight", { dtype := .float16, shape := [2, 1], stride := [1, 1], offset := 1, storage := 0 }),
  ("none", { dtype := .int64, shape := [0, 3], stride := [3, 1], offset := 0, storage := 1 }),
  ("bias", { dtype := .uint8, shape := [], stride := [], offset := 0, storage := 0 })]

def mixedMemory : Memory := ⟨[[1, 2, 3, 4, 5, 6], []]⟩

def mixedMetadata : List (Text × Text) := [("format", "pt")]

theorem inNameOrder_mixed : inNameOrder mixedTensors = mixedTensors.reverse := by
  have first : Text.le "weight" "none" = false := by
    decide
  have second : Text.le "none" "bias" = false := by
    decide
  simp [inNameOrder, mixedTensors, List.mergeSort, first, second]

theorem portable_mixed : ∀ named ∈ mixedTensors, Portable mixedMemory named.2 := by
  simp only [mixedTensors, List.forall_mem_cons]
  refine ⟨⟨⟨rfl, rfl, rfl, ?_, nofun⟩, nofun⟩, ⟨⟨rfl, rfl, rfl, ?_, nofun⟩, fun _ => rfl⟩,
    ⟨⟨rfl, rfl, rfl, ?_, fun _ => absurd rfl⟩, nofun⟩, List.forall_mem_nil _⟩
  all_goals decide

theorem nameable_mixed : Nameable (some mixedMetadata) mixedTensors where
  distinct := by decide
  unreserved := by decide
  strict := by decide
  keys := by
    rintro _ ⟨⟩
    decide
  metadata := by
    rintro _ ⟨⟩
    decide

theorem read_written_mixed : ∃ written t header loaded u u',
    (save {} mixedMemory (some (textsOf mixedMetadata)) mixedTensors).perform {} =
      (.ok written.length, t) ∧ t.content = overwrite [] 0 written ∧
    (readHeader {}).perform (.ofBytes written) = (.ok header, u) ∧
    header.names = Text.sort (mixedTensors.map Prod.fst) ∧ header.metadata = some mixedMetadata ∧
    (load {} none).perform (.ofBytes written) = (.ok loaded, u') ∧
    List.Forall₂ (SameElements mixedMemory loaded.memory) (inNameOrder mixedTensors) loaded.tensors := by
  have fits : (headerOf (some mixedMetadata) mixedTensors).body.length ≤ ({} : Config).maxHeaderSize := by
    rw [headerOf, inNameOrder_mixed]
    decide +kernel
  have small : (fileOf mixedMemory (some mixedMetadata) mixedTensors).length < sizeLimit := by
    rw [fileOf, headerOf, inNameOrder_mixed]
    decide +kernel
  obtain ⟨written, t, saved, content, reads⟩ := read_written (s := {}) ⟨rfl, rfl, rfl⟩
    nameable_mixed portable_mixed fits
  have total : written.length = (fileOf mixedMemory (some mixedMetadata) mixedTensors).length :=
    (ensures_save (E := fun _ _ => True)
      (Q := fun n _ => n = (fileOf mixedMemory (some mixedMetadata) mixedTensors).length)
      ⟨rfl, rfl, rfl⟩ nameable_mixed (fun named hn => (portable_mixed named hn).flat) fits
      fun _ => rfl).of_ok saved
  obtain ⟨⟨header, u, read, names, metadata⟩, loaded, u', hl, -, same⟩ :=
    reads _ (offers_ofBytes (total ▸ small))
  exact ⟨written, t, header, loaded, u, u', saved, content, read, names, metadata, hl, same⟩

/-- One element with a stride that leads past it. -/
def stretched : Tensor := { dtype := .float32, shape := [1, 1], stride := [1, 3], offset := 0, storage := 0 }

/-- A contiguous tensor of one element is refused when its header has been written already. -/
theorem read_written_stretched :
    let memory : Memory := ⟨[[0, 0, 128, 63]]⟩
    let (result, t) := (save {} memory none [("a", stretched)]).perform {}
    stretched.isContiguous = true ∧ stretched.dtype.tag?.isSome = true ∧
      stretched.stride.length = stretched.shape.length ∧ memory.Holds stretched ∧
      Nameable none [("a", stretched)] ∧
      result = .error (.tensorFault .gaps) ∧ t.content.length = 64 := by
  unfold save
  simp only [List.mergeSort_singleton]
  refine ⟨rfl, rfl, rfl, ?_, ?_, ?_, ?_⟩
  · decide
  · exact ⟨by decide, by decide, by decide, nofun, nofun⟩
  · decide +kernel
  · decide +kernel

end Checkpoint.Safetensors
