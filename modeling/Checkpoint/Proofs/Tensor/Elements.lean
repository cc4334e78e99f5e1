import Checkpoint.Tensor.Flat
import Checkpoint.Tensor.Limits
import Mathlib.Algebra.Ring.Nat
import Mathlib.Data.List.Basic
import Mathlib.Tactic.ByContra

/-! Elements of tensors: how many there are and how long, and the row-major layout, in which they lie one
after the other. -/

namespace Checkpoint

theorem DType.size_pos (d : DType) : 0 < d.size := by
  cases d <;> decide

namespace Shape

variable {shape stride : List Nat}

theorem ne_zero_of_count (h : count shape ≠ 0) : ∀ n ∈ shape, n ≠ 0 := by
  induction shape with
  | nil => nofun
  | cons n shape ih =>
    rw [count, Nat.mul_ne_zero_iff] at h
    exact List.forall_mem_cons.2 ⟨h.1, ih h.2⟩

theorem le_count (h : count shape ≠ 0) : ∀ n ∈ shape, n ≤ count shape := by
  induction shape with
  | nil => nofun
  | cons n shape ih =>
    rw [count, Nat.mul_ne_zero_iff] at h
    rw [count, List.forall_mem_cons]
    exact ⟨Nat.le_mul_of_pos_right n (Nat.pos_of_ne_zero h.2), fun m hm =>
      Nat.le_trans (ih h.2 m hm) (Nat.le_mul_of_pos_left _ (Nat.pos_of_ne_zero h.1))⟩

theorem length_addresses (shape stride : List Nat) (base : Nat) :
    (addresses shape stride base).length = count shape := by
  induction shape generalizing stride base with
  | nil => rfl
  | cons n shape ih =>
    simp only [addresses, List.length_flatMap, ih, List.map_const', List.length_range,
      List.sum_replicate_nat, count]

/-- How far the last element is from the first. -/
def span (shape stride : List Nat) : Nat :=
  ((shape.zip stride).map fun p => (p.1 - 1) * p.2).sum

theorem le_span {base a : Nat} (h : a ∈ addresses shape stride base) :
    base ≤ a ∧ a ≤ base + span shape stride := by
  induction shape generalizing stride base with
  | nil =>
    obtain rfl := List.mem_singleton.1 h
    exact ⟨Nat.le_refl _, Nat.le_add_right ..⟩
  | cons n shape ih =>
    rw [addresses, List.mem_flatMap] at h
    obtain ⟨i, hi, h⟩ := h
    have := ih h
    rw [List.mem_range] at hi
    cases stride with
    | nil =>
      simp only [span, List.zip_nil_right, List.tail_nil, List.headD_nil, Nat.mul_zero] at *
      exact this
    | cons k stride =>
      have step : i * k ≤ (n - 1) * k := Nat.mul_le_mul_right k (by omega)
      simp only [span, List.zip_cons_cons, List.map_cons, List.sum_cons, List.tail_cons,
        List.headD_cons] at *
      omega

theorem range_mul (m n : Nat) :
    List.range (m * n) = (List.range m).flatMap fun i => (List.range n).map (i * n + ·) := by
  induction m with
  | zero => rw [Nat.zero_mul]; rfl
  | succ m ih =>
    rw [Nat.succ_mul, List.range_add, ih, List.range_succ, List.flatMap_append, List.flatMap_singleton]

/-- Without an empty dimension each stride of the row-major layout is the number of elements that it passes. -/
theorem foldr_max_one (full : count shape ≠ 0) : (shape.map (max 1)).foldr (· * ·) 1 = count shape := by
  induction shape with
  | nil => rfl
  | cons n shape ih =>
    rw [count, Nat.mul_ne_zero_iff] at full
    rw [List.map_cons, List.foldr_cons, ih full.2, Nat.max_eq_right (Nat.pos_of_ne_zero full.1), count]

theorem length_contiguousStrides (shape : List Nat) : (contiguousStrides shape).length = shape.length := by
  induction shape with
  | nil => rfl
  | cons n shape ih => rw [contiguousStrides, List.length_cons, List.length_cons, ih]

theorem count_reverse (shape : List Nat) : count shape.reverse = count shape := by
  have last (shape : List Nat) (n : Nat) : count (shape ++ [n]) = n * count shape := by
    induction shape with
    | nil => rfl
    | cons m shape ih => rw [List.cons_append, count, count, ih, Nat.mul_left_comm]
  induction shape with
  | nil => rfl
  | cons n shape ih => rw [List.reverse_cons, last, ih, count]

/-- In the row-major layout the elements lie one after the other. -/
theorem addresses_contiguous (full : count shape ≠ 0) (base : Nat) :
    addresses shape (contiguousStrides shape) base = (List.range (count shape)).map (base + ·) := by
  induction shape generalizing base with
  | nil => rfl
  | cons n shape ih =>
    rw [count, Nat.mul_ne_zero_iff] at full
    simp only [addresses, contiguousStrides, List.tail_cons, List.headD_cons, foldr_max_one full.2, ih full.2,
      count, range_mul, List.map_flatMap, List.map_map]
    congr 1
    funext i
    apply List.map_congr_left
    intro j _
    exact Nat.add_assoc ..

theorem numbers_lt_of_require {numbers shape : List Nat} (h : require numbers shape = .ok ()) :
    ∀ n ∈ numbers, n < machineLimit := by
  unfold require at h
  split at h
  · cases h
  · next small =>
    intro n hn
    by_contra large
    exact small (List.any_eq_true.2 ⟨n, hn, decide_eq_true (Nat.le_of_not_lt large)⟩)

end Shape

namespace Tensor

variable {t : Tensor}

theorem length_addresses (t : Tensor) : t.addresses.length = t.numel := by
  unfold addresses
  split
  · next none => rw [none]; rfl
  · exact Shape.length_addresses ..

theorem lt_reach {a : Nat} (h : a ∈ t.addresses) : a < t.reach := by
  have total (l : List Nat) (n : Nat) : l.foldl (· + ·) n = n + l.sum := by
    induction l generalizing n with
    | nil => rfl
    | cons m l ih => rw [List.foldl_cons, ih, List.sum_cons, Nat.add_assoc]
  unfold addresses at h
  split at h
  · cases h
  · next full =>
    have := (Shape.le_span h).2
    rw [Shape.span] at this
    rw [reach, if_neg full]
    change a < t.offset + ((t.shape.zip t.stride).map fun p => (p.1 - 1) * p.2).foldl (· + ·) 1
    rw [total]
    omega

end Tensor

/-! ### Bytes of elements -/

namespace Memory

theorem length_flatten_of_forall {chunks : List Bytes} {size : Nat}
    (h : ∀ chunk ∈ chunks, chunk.length = size) : chunks.flatten.length = chunks.length * size := by
  induction chunks with
  | nil => rw [List.length_nil, Nat.zero_mul]; rfl
  | cons chunk chunks ih =>
    rw [List.forall_mem_cons] at h
    rw [List.flatten_cons, List.length_append, ih h.2, h.1, List.length_cons, Nat.succ_mul, Nat.add_comm]

/-- Pieces of one size are found again where they lie one after the other. -/
theorem map_element_flatten {chunks : List Bytes} {size : Nat}
    (h : ∀ chunk ∈ chunks, chunk.length = size) :
    (List.range chunks.length).map (element chunks.flatten size) = chunks := by
  induction chunks with
  | nil => rfl
  | cons chunk chunks ih =>
    rw [List.forall_mem_cons] at h
    have first : element (chunk :: chunks).flatten size 0 = chunk := by
      rw [element, Nat.zero_mul, List.drop_zero, List.flatten_cons, ← h.1, List.take_left]
    have others (i : Nat) : element (chunk :: chunks).flatten size (i + 1) =
        element chunks.flatten size i := by
      rw [element, element, Nat.succ_mul, Nat.add_comm, ← List.drop_drop, List.flatten_cons,
        List.drop_left' h.1]
    rw [List.length_cons, List.range_succ_eq_map, List.map_cons, List.map_map, first]
    congr 1
    conv_rhs => rw [← ih h.2]
    exact List.map_congr_left fun i _ => others i

/-- Whether a buffer holds every element of a view. -/
def Holds (m : Memory) (t : Tensor) : Prop :=
  t.reach * t.dtype.size ≤ (m.buffer t.storage).length

instance (m : Memory) (t : Tensor) : Decidable (m.Holds t) :=
  inferInstanceAs (Decidable (_ ≤ _))

variable {m : Memory} {t : Tensor}

theorem length_elements (m : Memory) (t : Tensor) : (m.elements t).length = t.numel := by
  rw [elements, List.length_map, t.length_addresses]

theorem length_element {buffer : Bytes} {size address : Nat}
    (h : (address + 1) * size ≤ buffer.length) : (element buffer size address).length = size := by
  rw [Nat.succ_mul] at h
  rw [element, List.length_take, List.length_drop]
  omega

theorem Holds.length_of_mem (h : m.Holds t) : ∀ bytes ∈ m.elements t, bytes.length = t.dtype.size := by
  rw [elements, List.forall_mem_map]
  intro a ha
  exact length_element (Nat.le_trans (Nat.mul_le_mul_right _ (Tensor.lt_reach ha)) h)

theorem Holds.length_flatten (h : m.Holds t) :
    (m.elements t).flatten.length = t.numel * t.dtype.size := by
  rw [length_flatten_of_forall h.length_of_mem, length_elements]

/-- A tensor in the row-major layout, from the start of its storage. -/
def rowMajor (d : DType) (shape : List Nat) (storage : Nat) : Tensor where
  dtype := d
  shape := shape
  stride := Shape.contiguousStrides shape
  offset := 0
  storage := storage

/-- Elements that lie one after the other are those of the row-major layout. -/
theorem elements_rowMajor {d : DType} {shape : List Nat} {storage : Nat} {chunks : List Bytes}
    (hb : m.buffer storage = chunks.flatten) (count : chunks.length = Shape.count shape)
    (h : ∀ chunk ∈ chunks, chunk.length = d.size) :
    m.elements (rowMajor d shape storage) = chunks := by
  have listed : (rowMajor d shape storage).addresses = List.range chunks.length := by
    unfold Tensor.addresses
    split
    · next none =>
      change Shape.count shape = 0 at none
      rw [count, none]
      rfl
    · next full =>
      change ¬ Shape.count shape = 0 at full
      change Shape.addresses shape (Shape.contiguousStrides shape) 0 = _
      rw [Shape.addresses_contiguous full, count]
      simp only [Nat.zero_add, List.map_id']
  unfold elements
  rw [listed]
  change (List.range _).map (element (m.buffer storage) d.size) = _
  rw [hb, map_element_flatten h]

end Memory

/-! ### Tensors as byte strings -/

namespace Tensor

variable {t : Tensor}

theorem isContiguous_go_eq (shape stride : List Nat) (count : Nat) :
    isContiguous.go shape stride count = isSpaced 1 count ((shape.zip stride).filter fun p => p.1 ≠ 1) := by
  induction shape generalizing stride count with
  | nil => simp [isContiguous.go, isSpaced]
  | cons n shape ih =>
    cases stride with
    | nil => simp [isContiguous.go, isSpaced]
    | cons k stride =>
      rw [isContiguous.go, List.zip_cons_cons, List.filter_cons]
      by_cases one : n = 1
      · simp [one, ih]
      · simp [one, ih, isSpaced]

/-- The outermost dimension comes last. -/
theorem isContiguous_go_concat {shape stride : List Nat} (rank : stride.length = shape.length)
    (n k count : Nat) : isContiguous.go (shape ++ [n]) (stride ++ [k]) count =
      (isContiguous.go shape stride count && (n == 1 || k == count * Shape.count shape)) := by
  induction shape generalizing stride count with
  | nil =>
    obtain rfl := List.length_eq_zero_iff.1 rank
    by_cases one : n = 1 <;> simp [isContiguous.go, Shape.count, one]
  | cons m shape ih =>
    obtain ⟨s, stride, rfl⟩ := List.exists_cons_of_length_eq_add_one rank
    have rank : stride.length = shape.length := Nat.succ.inj rank
    rw [List.cons_append, List.cons_append, isContiguous.go, isContiguous.go, Shape.count]
    by_cases one : m = 1
    · rw [if_pos one, if_pos one, ih rank, one, Nat.one_mul]
    · rw [if_neg one, if_neg one, ih rank, Bool.and_assoc, Nat.mul_assoc]

theorem isContiguous_rowMajor (d : DType) (shape : List Nat) (storage : Nat) :
    (Memory.rowMajor d shape storage).isContiguous = true := by
  have laid (full : Shape.count shape ≠ 0) :
      isContiguous.go shape.reverse (Shape.contiguousStrides shape).reverse 1 = true := by
    induction shape with
    | nil => rfl
    | cons n shape ih =>
      rw [Shape.count, Nat.mul_ne_zero_iff] at full
      have rank : (Shape.contiguousStrides shape).reverse.length = shape.reverse.length := by
        rw [List.length_reverse, List.length_reverse, Shape.length_contiguousStrides]
      rw [Shape.contiguousStrides, List.reverse_cons, List.reverse_cons, isContiguous_go_concat rank,
        ih full.2, Shape.count_reverse, Shape.foldr_max_one full.2, Nat.one_mul, beq_self_eq_true,
        Bool.or_true, Bool.and_true]
  rw [isContiguous, Bool.or_eq_true, beq_iff_eq]
  exact or_iff_not_imp_left.2 laid

/-- Contiguous tensors with several elements have neighbours next to each other. -/
theorem spacing?_eq_one (rank : t.stride.length = t.shape.length) (contiguous : t.isContiguous = true)
    (full : t.numel ≠ 0) (several : t.numel ≠ 1) : t.spacing? = some 1 := by
  have spaced : isSpaced 1 1 ((t.shape.zip t.stride).filter fun p => p.1 ≠ 1).reverse = true := by
    rw [isContiguous, isContiguous_go_eq, Bool.or_eq_true, beq_iff_eq] at contiguous
    rw [← List.filter_reverse, List.zip_eq_zipWith, List.reverse_zipWith rank.symm]
    exact contiguous.resolve_left full
  unfold spacing?
  rw [if_neg several]
  split
  · rfl
  · next n spacing outer found =>
    rw [found, isSpaced, Bool.and_eq_true, beq_iff_eq, Nat.one_mul, Nat.one_mul] at spaced
    rw [spaced.1, if_pos spaced.2]

end Tensor

/-- Whether a contiguous tensor of one element has its neighbour, if there were one, next to it. -/
def Tensor.Adjacent (t : Tensor) : Prop :=
  t.numel = 1 → t.dtype.size ≠ 1 → t.stride.getLast?.getD 1 = 1

theorem Memory.flat_eq {m : Memory} {t : Tensor} (rank : t.stride.length = t.shape.length)
    (contiguous : t.isContiguous = true) (adjacent : t.Adjacent) :
    m.flat t = .ok (m.elements t).flatten := by
  have one {spacing : Nat} (h : t.spacing? = some spacing) (full : t.numel ≠ 0)
      (wide : t.dtype.size ≠ 1) : spacing = 1 := by
    by_cases single : t.numel = 1
    · rw [Tensor.spacing?, if_pos single, adjacent single wide] at h
      exact (Option.some.inj h).symm
    · rw [Tensor.spacing?_eq_one rank contiguous full single] at h
      exact (Option.some.inj h).symm
  unfold flat
  split
  · next unspaced =>
    by_cases full : t.numel = 0
    · rw [values, elements, Tensor.addresses, if_pos full]
      rfl
    · have single : t.numel ≠ 1 := by
        intro single
        rw [Tensor.spacing?, if_pos single] at unspaced
        cases unspaced
      rw [Tensor.spacing?_eq_one rank contiguous full single] at unspaced
      cases unspaced
  · next spacing found =>
    exact if_neg fun gaps => gaps.2.2 (one found gaps.1 gaps.2.1)

end Checkpoint
