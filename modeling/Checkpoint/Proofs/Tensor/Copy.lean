import Checkpoint.Tensor.Copy
import Checkpoint.Proofs.Bytes
import Checkpoint.Proofs.Tensor.Elements
import Mathlib.Data.List.Nodup

/-! Copies into tensors: what has been written is read back, and tensors that share no bytes with the
target stay as they are. -/

namespace Checkpoint

/-! ### Buffers -/

namespace Memory

variable {buffer bytes : Bytes} {position size : Nat}

/-- What stands in a range of a buffer. -/
def stretch (buffer : Bytes) (start size : Nat) : Bytes := (buffer.drop start).take size

theorem element_eq_stretch (buffer : Bytes) (size address : Nat) :
    element buffer size address = stretch buffer (address * size) size :=
  rfl

theorem length_splice (h : position + bytes.length ≤ buffer.length) :
    (splice buffer position bytes).length = buffer.length := by
  simp only [splice, List.length_append, List.length_take, List.length_drop]
  omega

theorem stretch_splice_self (h : position + bytes.length ≤ buffer.length) :
    stretch (splice buffer position bytes) position bytes.length = bytes := by
  have front : (buffer.take position).length = position := by
    rw [List.length_take]
    omega
  rw [stretch, splice, List.append_assoc, List.drop_left' front, List.take_left]

/-- Ranges outside of what is replaced stay. -/
theorem stretch_splice_of_apart {start size : Nat} (h : position + bytes.length ≤ buffer.length)
    (apart : position + bytes.length ≤ start ∨ start + size ≤ position) :
    stretch (splice buffer position bytes) start size = stretch buffer start size := by
  have front : (buffer.take position).length = position := by
    rw [List.length_take]
    omega
  unfold stretch splice
  obtain behind | before := apart
  · obtain ⟨k, rfl⟩ := Nat.exists_eq_add_of_le behind
    have both : (buffer.take position ++ bytes).length = position + bytes.length := by
      rw [List.length_append, front]
    rw [← List.drop_drop, List.drop_left' both, List.drop_drop]
  · rw [List.append_assoc, List.drop_append_of_le_length (by omega),
      List.take_append_of_le_length (by rw [List.length_drop]; omega), List.drop_take, List.take_take,
      Nat.min_eq_left (by omega)]

/-- Puts elements at their addresses, one after the other. -/
def placeAll (size : Nat) (buffer : Bytes) (placed : List (Nat × Bytes)) : Bytes :=
  placed.foldl (fun buffer p => splice buffer (p.1 * size) p.2) buffer

/-- Elements of at most one size at addresses within a buffer. -/
def Fits (size : Nat) (buffer : Bytes) (placed : List (Nat × Bytes)) : Prop :=
  ∀ p ∈ placed, p.2.length ≤ size ∧ p.1 * size + size ≤ buffer.length

variable {placed : List (Nat × Bytes)} {p : Nat × Bytes}

theorem Fits.first (h : Fits size buffer (p :: placed)) : p.1 * size + p.2.length ≤ buffer.length := by
  obtain ⟨length, within⟩ := h p List.mem_cons_self
  omega

theorem Fits.rest (h : Fits size buffer (p :: placed)) :
    Fits size (splice buffer (p.1 * size) p.2) placed := by
  intro q hq
  rw [length_splice h.first]
  exact h q (List.mem_cons_of_mem _ hq)

theorem length_placeAll (h : Fits size buffer placed) :
    (placeAll size buffer placed).length = buffer.length := by
  induction placed generalizing buffer with
  | nil => rfl
  | cons p placed ih => exact (ih h.rest).trans (length_splice h.first)

theorem stretch_placeAll {start count : Nat} (h : Fits size buffer placed)
    (apart : ∀ p ∈ placed, p.1 * size + size ≤ start ∨ start + count ≤ p.1 * size) :
    stretch (placeAll size buffer placed) start count = stretch buffer start count := by
  induction placed generalizing buffer with
  | nil => rfl
  | cons p placed ih =>
    obtain ⟨first, apart⟩ := List.forall_mem_cons.1 apart
    have short : p.2.length ≤ size := (h p List.mem_cons_self).1
    refine (ih h.rest apart).trans (stretch_splice_of_apart h.first ?_)
    omega

/-- Elements at other addresses do not touch the one at an address. -/
theorem element_placeAll_of_notMem {address : Nat} (h : Fits size buffer placed)
    (other : address ∉ placed.map Prod.fst) :
    element (placeAll size buffer placed) size address = element buffer size address := by
  apply stretch_placeAll h
  intro q hq
  have other : q.1 ≠ address := fun same => other (same ▸ List.mem_map_of_mem hq)
  rw [← Nat.succ_mul, ← Nat.succ_mul]
  obtain lt | lt := Nat.lt_or_gt_of_ne other
  · exact .inl (Nat.mul_le_mul_right _ lt)
  · exact .inr (Nat.mul_le_mul_right _ lt)

/-- An element is found where it has been put. -/
theorem element_splice (h : Fits size buffer (p :: placed)) (full : p.2.length = size) :
    element (splice buffer (p.1 * size) p.2) size p.1 = p.2 := by
  have found := stretch_splice_self h.first
  rwa [full] at found

/-- Elements at different addresses are all found where they have been put. -/
theorem element_placeAll (h : Fits size buffer placed) (full : ∀ p ∈ placed, p.2.length = size)
    (distinct : (placed.map Prod.fst).Nodup) :
    ∀ p ∈ placed, element (placeAll size buffer placed) size p.1 = p.2 := by
  induction placed generalizing buffer with
  | nil => nofun
  | cons p placed ih =>
    obtain ⟨first, full⟩ := List.forall_mem_cons.1 full
    rw [List.map_cons, List.nodup_cons] at distinct
    refine List.forall_mem_cons.2 ⟨?_, ih h.rest full distinct.2⟩
    exact (element_placeAll_of_notMem h.rest distinct.1).trans (element_splice h first)

/-- What is found where elements have been put does not depend on what was there. -/
theorem element_placeAll_congr {buffer' : Bytes} {address : Nat} (h : Fits size buffer placed)
    (h' : Fits size buffer' placed) (full : ∀ p ∈ placed, p.2.length = size)
    (put : address ∈ placed.map Prod.fst) :
    element (placeAll size buffer placed) size address =
      element (placeAll size buffer' placed) size address := by
  induction placed generalizing buffer buffer' with
  | nil => cases put
  | cons p placed ih =>
    obtain ⟨first, full⟩ := List.forall_mem_cons.1 full
    by_cases again : address ∈ placed.map Prod.fst
    · exact ih h.rest h'.rest full again
    · obtain rfl : address = p.1 := (List.mem_cons.1 put).resolve_right again
      calc element (placeAll size (splice buffer (p.1 * size) p.2) placed) size p.1
        _ = element (splice buffer (p.1 * size) p.2) size p.1 := element_placeAll_of_notMem h.rest again
        _ = p.2 := element_splice h first
        _ = element (splice buffer' (p.1 * size) p.2) size p.1 := (element_splice h' first).symm
        _ = element (placeAll size (splice buffer' (p.1 * size) p.2) placed) size p.1 :=
          (element_placeAll_of_notMem h'.rest again).symm

end Memory

/-! ### Tensors -/

/-- Two tensors without a byte in common. -/
def Tensor.Disjoint (a b : Tensor) : Prop :=
  a.storage = b.storage → ∀ i ∈ a.addresses, ∀ j ∈ b.addresses,
    i * a.dtype.size + a.dtype.size ≤ j * b.dtype.size ∨
      j * b.dtype.size + b.dtype.size ≤ i * a.dtype.size

instance (a b : Tensor) : Decidable (a.Disjoint b) :=
  inferInstanceAs (Decidable (_ → _))

theorem Tensor.Disjoint.symm {a b : Tensor} (h : a.Disjoint b) : b.Disjoint a :=
  fun same j hj i hi => (h same.symm i hi j hj).symm

/-- Along a stride of zero an address comes again. -/
theorem Shape.not_nodup_addresses {shape stride : List Nat} {n : Nat} (full : count shape ≠ 0)
    (spread : 1 < n) (still : (n, 0) ∈ shape.zip stride) (base : Nat) :
    ¬ (addresses shape stride base).Nodup := by
  induction shape generalizing stride base with
  | nil => cases still
  | cons k shape ih =>
    cases stride with
    | nil => cases still
    | cons s stride =>
      obtain ⟨positive, rows⟩ : k ≠ 0 ∧ count shape ≠ 0 := by
        rw [count] at full
        exact ⟨fun none => full (by rw [none, Nat.zero_mul]), fun none => full (by rw [none, Nat.mul_zero])⟩
      intro distinct
      rw [addresses, List.nodup_flatMap] at distinct
      obtain ⟨each, apart⟩ := distinct
      obtain same | still := List.mem_cons.1 still
      · -- The elements of the first two rows have the same addresses.
        cases same
        obtain ⟨a, ha⟩ : ∃ a, a ∈ addresses shape stride base :=
          List.exists_mem_of_length_pos (by rw [length_addresses]; exact Nat.pos_of_ne_zero rows)
        have first : 0 < (List.range n).length := by
          rw [List.length_range]
          omega
        have second : 1 < (List.range n).length := by
          rwa [List.length_range]
        have disjoint := List.pairwise_iff_getElem.1 apart 0 1 first second Nat.zero_lt_one
        rw [List.getElem_range, List.getElem_range] at disjoint
        exact disjoint ha ha
      · exact ih rows still _ (each 0 (List.mem_range.2 (Nat.pos_of_ne_zero positive)))

/-- A tensor whose elements all have places of their own repeats none. -/
theorem Tensor.repeatsElements_of_nodup {t : Tensor} (distinct : t.addresses.Nodup) :
    t.repeatsElements = false := by
  rw [Bool.eq_false_iff]
  intro repeats
  simp only [repeatsElements, isDense, isContiguous, Bool.and_eq_true, Bool.not_eq_true',
    Bool.or_eq_false_iff, beq_eq_false_iff_ne, List.any_eq_true, beq_iff_eq] at repeats
  obtain ⟨⟨⟨full, -⟩, -⟩, ⟨n, _⟩, spread, rfl⟩ := repeats
  obtain ⟨still, spread⟩ := List.mem_filter.1 spread
  rw [addresses, if_neg full] at distinct
  exact Shape.not_nodup_addresses full (of_decide_eq_true spread) still _ distinct

/-- A tensor of a memory, each of whose elements has a place of its own. -/
structure Memory.Owns (m : Memory) (t : Tensor) : Prop where
  allocated : t.storage < m.buffers.length
  held : m.Holds t
  distinct : t.addresses.Nodup

namespace Memory

variable {m : Memory} {t u : Tensor} {elements : List Bytes}

theorem buffer_write_of_ne {storage : Nat} (h : t.storage ≠ storage) (elements : List Bytes) :
    (m.write t elements).buffer storage = m.buffer storage := by
  simp only [write, buffer, List.getD_eq_getElem?_getD, List.getElem?_set_ne h]

theorem buffer_write_self (h : t.storage < m.buffers.length) (elements : List Bytes) :
    (m.write t elements).buffer t.storage =
      placeAll t.dtype.size (m.buffer t.storage) (t.addresses.zip elements) := by
  simp only [write, buffer, List.getD_eq_getElem?_getD, List.getElem?_set_self h, Option.getD_some]
  rfl

theorem length_buffers_write (m : Memory) (t : Tensor) (elements : List Bytes) :
    (m.write t elements).buffers.length = m.buffers.length :=
  List.length_set

theorem Holds.fits (h : m.Holds t) (sizes : ∀ bytes ∈ elements, bytes.length ≤ t.dtype.size) :
    Fits t.dtype.size (m.buffer t.storage) (t.addresses.zip elements) := by
  intro p hp
  obtain ⟨address, element⟩ := List.of_mem_zip hp
  refine ⟨sizes _ element, ?_⟩
  rw [← Nat.succ_mul]
  exact Nat.le_trans (Nat.mul_le_mul_right _ (Tensor.lt_reach address)) h

theorem elements_congr {m' : Memory} (same : m'.buffer t.storage = m.buffer t.storage) :
    m'.elements t = m.elements t := by
  rw [elements, same]
  rfl

/-- What has been written into a tensor is what it holds. -/
theorem Owns.elements_write (h : m.Owns t) (count : elements.length = t.numel)
    (sizes : ∀ bytes ∈ elements, bytes.length = t.dtype.size) :
    (m.write t elements).elements t = elements := by
  have fits := h.held.fits fun bytes hb => Nat.le_of_eq (sizes bytes hb)
  have same : elements.length = t.addresses.length := count.trans t.length_addresses.symm
  have firsts : (t.addresses.zip elements).map Prod.fst = t.addresses :=
    List.map_fst_zip (Nat.le_of_eq same.symm)
  have found := element_placeAll fits (fun p hp => sizes _ (List.of_mem_zip hp).2) (firsts.symm ▸ h.distinct)
  rw [Memory.elements, buffer_write_self h.allocated]
  generalize placeAll t.dtype.size (m.buffer t.storage) (t.addresses.zip elements) = buffer at found
  calc t.addresses.map (element buffer t.dtype.size)
    _ = ((t.addresses.zip elements).map Prod.fst).map (element buffer t.dtype.size) := by rw [firsts]
    _ = (t.addresses.zip elements).map fun p => element buffer t.dtype.size p.1 := List.map_map
    _ = (t.addresses.zip elements).map Prod.snd := List.map_congr_left found
    _ = elements := List.map_snd_zip (Nat.le_of_eq same)

/-- What a tensor holds when it has been written does not depend on what it held. -/
theorem elements_write_congr {m' : Memory} (allocated : t.storage < m.buffers.length) (held : m.Holds t)
    (allocated' : t.storage < m'.buffers.length) (held' : m'.Holds t) (count : elements.length = t.numel)
    (sizes : ∀ bytes ∈ elements, bytes.length = t.dtype.size) :
    (m.write t elements).elements t = (m'.write t elements).elements t := by
  have fits := fun bytes hb => Nat.le_of_eq (sizes bytes hb)
  have firsts : (t.addresses.zip elements).map Prod.fst = t.addresses :=
    List.map_fst_zip (Nat.le_of_eq (t.length_addresses.trans count.symm))
  rw [Memory.elements, Memory.elements, buffer_write_self allocated, buffer_write_self allocated']
  refine List.map_congr_left fun address ha => ?_
  exact element_placeAll_congr (held.fits fits) (held'.fits fits)
    (fun p hp => sizes _ (List.of_mem_zip hp).2) (firsts.symm ▸ ha)

/-- A tensor that shares no byte with the one that is written stays as it is. -/
theorem elements_write_of_disjoint (held : m.Holds t)
    (sizes : ∀ bytes ∈ elements, bytes.length ≤ t.dtype.size) (apart : t.Disjoint u) :
    (m.write t elements).elements u = m.elements u := by
  by_cases same : t.storage = u.storage
  · by_cases allocated : t.storage < m.buffers.length
    · have fits := held.fits sizes
      rw [Memory.elements, Memory.elements, ← same, buffer_write_self allocated]
      apply List.map_congr_left
      intro j hj
      rw [element_eq_stretch, element_eq_stretch]
      apply stretch_placeAll fits
      exact fun p hp => apart same _ (List.of_mem_zip hp).1 j hj
    · have unchanged : (m.write t elements).buffers = m.buffers :=
        List.set_eq_of_length_le (Nat.le_of_not_lt allocated)
      apply elements_congr
      rw [buffer, unchanged]
      rfl
  · exact elements_congr (buffer_write_of_ne same elements)

theorem length_buffer_write (held : m.Holds t)
    (sizes : ∀ bytes ∈ elements, bytes.length ≤ t.dtype.size) (storage : Nat) :
    ((m.write t elements).buffer storage).length = (m.buffer storage).length := by
  by_cases same : t.storage = storage
  · subst same
    by_cases allocated : t.storage < m.buffers.length
    · rw [buffer_write_self allocated, length_placeAll (held.fits sizes)]
    · have unchanged : (m.write t elements).buffers = m.buffers :=
        List.set_eq_of_length_le (Nat.le_of_not_lt allocated)
      rw [buffer, unchanged]
      rfl
  · rw [buffer_write_of_ne same]

theorem Holds.write (h : m.Holds u) (held : m.Holds t)
    (sizes : ∀ bytes ∈ elements, bytes.length ≤ t.dtype.size) : (m.write t elements).Holds u := by
  rw [Holds, length_buffer_write held sizes]
  exact h

end Memory

/-! ### Conversions -/

namespace DType

variable {source target : DType} {bytes : Bytes} {elements : List Bytes}

theorem length_toBytes (d : DType) (e : Element) : (e.toBytes d).length = d.size := by
  cases d <;> simp [Element.toBytes, layout, size, componentSize]

/-- A conversion copies the bytes as they are, or makes as many as the target has. -/
theorem convert_eq_or (source target : DType) (bytes : Bytes) :
    source = target ∧ source.convert target bytes = bytes ∨ (source.convert target bytes).length = target.size := by
  unfold convert
  split
  · next same => exact .inl ⟨same.1, rfl⟩
  · exact .inr (length_toBytes _ _)

theorem length_convertRun (source target : DType) (elements : List Bytes) :
    (convertRun source target elements).length = elements.length := by
  unfold convertRun
  split
  · exact List.length_map _
  · rw [List.length_append, List.length_map, List.length_map, ← List.length_append, List.take_append_drop]

theorem mem_convertRun (h : bytes ∈ convertRun source target elements) :
    (∃ element ∈ elements, bytes = source.convert target element) ∨ bytes.length = target.size := by
  unfold convertRun at h
  split at h
  · obtain ⟨element, he, rfl⟩ := List.mem_map.1 h
    exact .inl ⟨element, he, rfl⟩
  · obtain h | h := List.mem_append.1 h
    · obtain ⟨element, he, rfl⟩ := List.mem_map.1 h
      exact .inl ⟨element, List.mem_of_mem_take he, rfl⟩
    · obtain ⟨element, he, rfl⟩ := List.mem_map.1 h
      split
      · exact .inr (Bytes.length_littleEndian ..)
      · exact .inl ⟨element, List.mem_of_mem_drop he, rfl⟩

/-- An element as it is copied between tensors of one type: a truth value becomes 0 or 1. -/
def normal (d : DType) (bytes : Bytes) : Bytes := d.convert d bytes

theorem normal_of_ne_bool {d : DType} (h : d ≠ .bool) (bytes : Bytes) : d.normal bytes = bytes :=
  if_pos ⟨rfl, h⟩

end DType

namespace Memory

variable {m m' : Memory} {source target : Tensor}

theorem length_le_of_mem_elements {bytes : Bytes} (h : bytes ∈ m.elements source) :
    bytes.length ≤ source.dtype.size := by
  obtain ⟨address, -, rfl⟩ := List.mem_map.1 h
  exact List.length_take_le _ _

theorem length_converted (m : Memory) (source target : Tensor) :
    (m.converted source target).length = source.numel := by
  unfold converted
  dsimp only
  split
  · rw [DType.length_convertRun, length_elements]
  · rw [List.length_map, length_elements]

/-- Converted elements come from an element each, or have the size of the target. -/
theorem mem_converted {bytes : Bytes} (h : bytes ∈ m.converted source target) :
    (∃ element ∈ m.elements source, source.dtype = target.dtype ∧ bytes = element) ∨
      bytes.length = target.dtype.size := by
  obtain ⟨element, he, rfl⟩ | full : (∃ element ∈ m.elements source,
      bytes = source.dtype.convert target.dtype element) ∨ bytes.length = target.dtype.size := by
    unfold converted at h
    dsimp only at h
    split at h
    · exact DType.mem_convertRun h
    · obtain ⟨element, he, rfl⟩ := List.mem_map.1 h
      exact .inl ⟨element, he, rfl⟩
  · obtain ⟨same, copied⟩ | full := DType.convert_eq_or source.dtype target.dtype element
    · exact .inl ⟨element, he, same, copied⟩
    · exact .inr full
  · exact .inr full

theorem length_le_of_mem_converted : ∀ bytes ∈ m.converted source target, bytes.length ≤ target.dtype.size := by
  intro bytes hb
  obtain ⟨element, he, same, rfl⟩ | full := mem_converted hb
  · exact same ▸ length_le_of_mem_elements he
  · exact Nat.le_of_eq full

theorem length_of_mem_converted (sized : ∀ bytes ∈ m.elements source, bytes.length = source.dtype.size) :
    ∀ bytes ∈ m.converted source target, bytes.length = target.dtype.size := by
  intro bytes hb
  obtain ⟨element, he, same, rfl⟩ | full := mem_converted hb
  · exact same ▸ sized _ he
  · exact full

theorem converted_congr (same : m'.elements source = m.elements source) (target : Tensor) :
    m'.converted source target = m.converted source target := by
  rw [converted, same]
  rfl

theorem converted_eq (same : source.dtype = target.dtype) :
    m.converted source target = (m.elements source).map target.dtype.normal := by
  have plain (d : DType) : DType.runNaN? d d = none := by
    cases d <;> rfl
  unfold converted
  rw [same]
  split
  · rw [DType.convertRun, plain]
    rfl
  · rfl

/-! ### Copies -/

/-- From another storage, what is copied is written as a whole. -/
theorem copyElements_of_ne (apart : source.storage ≠ target.storage) :
    m.copyElements source target = m.write target (m.converted source target) := by
  rw [copyElements, if_neg fun h => apart h.1]

theorem overlapsPartly_of_ne (apart : source.storage ≠ target.storage) :
    target.overlapsPartly source = false := by
  rw [Tensor.overlapsPartly, beq_eq_false_iff_ne.2 apart.symm]
  rfl

/-- From another storage, a tensor that is not certain to repeat elements takes every copy. -/
theorem copy_of_ne (apart : source.storage ≠ target.storage)
    (single : target.repeatsElements = false) :
    m.copy source target = .ok (m.write target (m.converted source target)) := by
  have elements := copyElements_of_ne (m := m) apart
  have other : ¬ source = target := fun same => apart (congrArg Tensor.storage same)
  unfold copy
  split
  · rw [elements]
  · simp only [single, overlapsPartly_of_ne apart, elements, Bool.false_eq_true, if_false]

theorem copy_eq_ok_of_ne (apart : source.storage ≠ target.storage) (copied : m.copy source target = .ok m') :
    m' = m.write target (m.converted source target) := by
  have other : ¬ source = target := fun same => apart (congrArg Tensor.storage same)
  rw [← copyElements_of_ne apart]
  unfold copy at copied
  rw [if_neg other] at copied
  repeat' split at copied
  all_goals cases copied
  all_goals rfl

theorem copy_eq_error_of_ne {fault : TensorFault} (apart : source.storage ≠ target.storage)
    (failed : m.copy source target = .error fault) : fault = .repeatedElements := by
  have other : ¬ source = target := fun same => apart (congrArg Tensor.storage same)
  unfold copy at failed
  rw [if_neg other, if_neg (Bool.eq_false_iff.1 (overlapsPartly_of_ne apart))] at failed
  repeat' split at failed
  all_goals cases failed
  all_goals rfl

end Memory

end Checkpoint
