import Checkpoint.Archive.Arena
import Checkpoint.Proofs.Effect
import Mathlib.Algebra.Order.Ring.Int
import Mathlib.Data.List.Forall2
import Mathlib.Order.Bounds.Basic

/-! Views of storages.  The element that lies furthest is the last along every dimension, so a view
fits as soon as that one does, and is refused only if it does not fit. -/

namespace Checkpoint.Pickle.TensorRef

/-- An index into a view: one place along each dimension. -/
def IsIndex (index : List Nat) (shape : List Int) : Prop :=
  List.Forall₂ (fun (i : Nat) n => (i : Int) < n) index shape

/-- How far the element at an index is from the first. -/
def distance : List Nat → List Int → Int
  | i :: index, s :: stride => i * s + distance index stride
  | _, _ => 0

/-- Where in its storage the element at an index is. -/
def address (t : TensorRef) (index : List Nat) : Int := t.offset + distance index t.stride

/-- A view that lies within a storage of `count` elements. -/
structure FitsIn (t : TensorRef) (count : Nat) : Prop where
  rank : t.shape.length = t.stride.length
  shape_nonneg : ∀ n ∈ t.shape, 0 ≤ n
  stride_nonneg : ∀ k ∈ t.stride, 0 ≤ k
  offset_nonneg : 0 ≤ t.offset
  address_lt : ∀ index, IsIndex index t.shape → t.address index < count
  offset_le : (0 : Int) ∈ t.shape → t.offset ≤ count

theorem distance_le_reach {index : List Nat} {shape stride : List Int} (hi : IsIndex index shape)
    (hs : ∀ s ∈ stride, 0 ≤ s) : distance index stride ≤ reach shape stride := by
  induction hi generalizing stride with
  | nil => cases stride <;> simp [distance, reach]
  | @cons i n index shape h hi ih =>
    cases stride with
    | nil => simp [distance, reach]
    | cons s stride =>
      simp only [List.mem_cons, forall_eq_or_imp] at hs
      have hm : (i : Int) * s ≤ (n - 1) * s := Int.mul_le_mul_of_nonneg_right (by omega) hs.1
      exact Int.add_le_add hm (ih hs.2)

theorem product_ne_zero_iff {shape : List Int} :
    shape.foldr (· * ·) 1 ≠ 0 ↔ (0 : Int) ∉ shape := by
  induction shape with
  | nil => simp
  | cons n shape ih =>
    simp only [List.foldr_cons, ne_eq, Int.mul_eq_zero, not_or, List.mem_cons]
    exact and_congr ⟨Ne.symm, Ne.symm⟩ ih

theorem IsIndex.zero_notMem {index : List Nat} {shape : List Int} (h : IsIndex index shape) :
    (0 : Int) ∉ shape := by
  induction h with
  | nil => simp
  | cons h _ ih =>
    simp only [List.mem_cons, not_or]
    exact ⟨by omega, ih⟩

/-- No element lies past the extent of its view. -/
theorem address_lt_extent {t : TensorRef} {index : List Nat} (hi : IsIndex index t.shape)
    (hs : ∀ s ∈ t.stride, 0 ≤ s) : t.address index < t.extent := by
  have hn : t.numel ≠ 0 := product_ne_zero_iff.2 hi.zero_notMem
  have hd := distance_le_reach hi hs
  simp only [address, extent, if_neg hn]
  omega

theorem extent_of_empty {t : TensorRef} (h : (0 : Int) ∈ t.shape) : t.extent = t.offset := by
  have hn : t.numel = 0 := by
    by_contra hn
    exact product_ne_zero_iff.1 hn h
  simp [extent, hn]

/-- Where in their storage the elements of a view are. -/
def addresses (t : TensorRef) : Set Int :=
  { place | ∃ index, IsIndex index t.shape ∧ t.address index = place }

/-- The last place along every dimension. -/
def corner (shape : List Int) : List Nat := shape.map fun n => (n - 1).toNat

theorem isIndex_corner {shape : List Int} (positive : ∀ n ∈ shape, 0 < n) :
    IsIndex (corner shape) shape := by
  induction shape with
  | nil => exact .nil
  | cons n shape ih =>
    rw [List.forall_mem_cons] at positive
    have last : ((n - 1).toNat : Int) < n := by omega
    exact .cons last (ih positive.2)

theorem distance_corner {shape : List Int} (positive : ∀ n ∈ shape, 0 < n) (stride : List Int) :
    distance (corner shape) stride = reach shape stride := by
  induction shape generalizing stride with
  | nil => rfl
  | cons n shape ih =>
    rw [List.forall_mem_cons] at positive
    cases stride with
    | nil => rfl
    | cons s stride =>
      have last : ((n - 1).toNat : Int) = n - 1 := by omega
      change ((n - 1).toNat : Int) * s + distance (corner shape) stride = (n - 1) * s + reach shape stride
      rw [last, ih positive.2]

/-- The extent of a view that is not empty is one more than the greatest address of an element. -/
theorem exists_isGreatest {t : TensorRef} (positive : ∀ n ∈ t.shape, 0 < n)
    (forward : ∀ k ∈ t.stride, 0 ≤ k) : ∃ last, IsGreatest t.addresses last ∧ t.extent = last + 1 := by
  have held : t.numel ≠ 0 := product_ne_zero_iff.2 fun empty => Int.lt_irrefl 0 (positive 0 empty)
  have furthest : t.extent = t.address (corner t.shape) + 1 := by
    rw [extent, if_neg held, address, distance_corner positive]
  refine ⟨t.address (corner t.shape), ⟨⟨_, isIndex_corner positive, rfl⟩, ?_⟩, furthest⟩
  rintro _ ⟨index, hi, rfl⟩
  have within := address_lt_extent hi forward
  omega

/-- A view with a stride for each dimension, and nothing negative in it. -/
structure Regular (t : TensorRef) : Prop where
  rank : t.shape.length = t.stride.length
  shape_nonneg : ∀ n ∈ t.shape, 0 ≤ n
  stride_nonneg : ∀ k ∈ t.stride, 0 ≤ k
  offset_nonneg : 0 ≤ t.offset

theorem Regular.positive {t : TensorRef} (h : t.Regular) (held : (0 : Int) ∉ t.shape) :
    ∀ n ∈ t.shape, 0 < n :=
  fun n hn => lt_of_le_of_ne (h.shape_nonneg n hn) fun zero => held (zero ▸ hn)

/-- A view of which nothing is negative keeps within so many elements just if its extent does. -/
theorem Regular.extent_le_iff {t : TensorRef} (h : t.Regular) {count : Int} : t.extent ≤ count ↔
    (0 : Int) ∈ t.shape ∧ t.offset ≤ count ∨
      (0 : Int) ∉ t.shape ∧ ∀ index, IsIndex index t.shape → t.address index < count := by
  by_cases empty : (0 : Int) ∈ t.shape
  · simp only [extent_of_empty empty, empty, true_and, not_true_eq_false, false_and, or_false]
  · simp only [empty, false_and, not_false_eq_true, true_and, false_or]
    constructor
    · exact fun within index hi => (address_lt_extent hi h.stride_nonneg).trans_le within
    · intro within
      obtain ⟨_, ⟨⟨index, hi, rfl⟩, -⟩, furthest⟩ := exists_isGreatest (h.positive empty) h.stride_nonneg
      rw [furthest]
      exact within index hi

/-- A view fits just if its extent does. -/
theorem fitsIn_iff {t : TensorRef} {count : Nat} : t.FitsIn count ↔ t.Regular ∧ t.extent ≤ count := by
  constructor
  · intro h
    have regular : t.Regular := ⟨h.rank, h.shape_nonneg, h.stride_nonneg, h.offset_nonneg⟩
    refine ⟨regular, regular.extent_le_iff.2 ?_⟩
    by_cases empty : (0 : Int) ∈ t.shape
    · exact .inl ⟨empty, h.offset_le empty⟩
    · exact .inr ⟨empty, h.address_lt⟩
  · intro ⟨regular, within⟩
    refine ⟨regular.rank, regular.shape_nonneg, regular.stride_nonneg, regular.offset_nonneg, ?_, ?_⟩
    · exact fun index hi => (address_lt_extent hi regular.stride_nonneg).trans_le within
    · exact fun empty => (extent_of_empty empty).symm.trans_le within

end Checkpoint.Pickle.TensorRef

namespace Checkpoint.Archive.Arena

open Pickle

theorem checkView_eq_ok {t : TensorRef} {count : Int} :
    checkView t count = .ok () ↔ t.Regular ∧ t.extent ≤ count := by
  unfold checkView
  split
  · next rank => exact ⟨nofun, fun h => absurd h.1.rank rank⟩
  · next rank =>
    split
    · next negative =>
      refine ⟨nofun, fun h => absurd negative ?_⟩
      simp only [List.any_eq_true, decide_eq_true_eq, not_or, not_exists, not_and, Int.not_lt]
      exact ⟨h.1.offset_nonneg, h.1.shape_nonneg, h.1.stride_nonneg⟩
    · next nonneg =>
      simp only [List.any_eq_true, decide_eq_true_eq, not_or, not_exists, not_and, Int.not_lt] at nonneg
      have regular : t.Regular := ⟨not_not.1 rank, nonneg.2.1, nonneg.2.2, nonneg.1⟩
      split
      · next past => exact ⟨nofun, fun h => absurd past (Int.not_lt.2 h.2)⟩
      · next within => exact ⟨fun _ => ⟨regular, Int.not_lt.1 within⟩, fun _ => rfl⟩

/-- A view that is accepted for a storage lies within it. -/
theorem fitsIn_of_checkView {t : TensorRef} {count : Nat} (h : checkView t count = .ok ()) :
    t.FitsIn count :=
  TensorRef.fitsIn_iff.2 (checkView_eq_ok.1 h)

theorem extent_le_of_checkView {t : TensorRef} {count : Int} (h : checkView t count = .ok ()) :
    t.extent ≤ count :=
  (checkView_eq_ok.1 h).2

section Checking

variable {a : Arena} {t : TensorRef} {blob : Blob}

/-- The check is exact: of the views of a registered storage, in the type of the storage, it accepts those that
have a stride for each dimension and nothing negative, and either no elements and a start that is not past the
end, or elements that all lie within.  It measures them by their extent, which for a view that is not empty is
one more than the greatest address of an element. -/
theorem check_eq_ok_iff (registered : a.blobs.get? t.storageKey = some blob) (dtype : blob.dtype = t.dtype) :
    (a.check t = .ok () ↔ t.Regular ∧
      ((0 : Int) ∈ t.shape ∧ t.offset ≤ blob.count ∨
        (0 : Int) ∉ t.shape ∧ ∀ index, TensorRef.IsIndex index t.shape → t.address index < blob.count)) ∧
      ((∀ n ∈ t.shape, 0 < n) → (∀ k ∈ t.stride, 0 ≤ k) →
        ∃ last, IsGreatest t.addresses last ∧ t.extent = last + 1) := by
  refine ⟨?_, TensorRef.exists_isGreatest⟩
  calc a.check t = .ok () ↔ checkView t blob.count = .ok () := by
        unfold check
        rw [registered]
        dsimp only
        rw [if_neg (not_not.2 dtype), mapError_eq_ok]
    _ ↔ t.Regular ∧ t.extent ≤ blob.count := checkView_eq_ok
    _ ↔ _ := and_congr_right fun regular => regular.extent_le_iff

end Checking

/-- An arena with one storage, of six numbers. -/
def sixNumbers : Arena where
  reader := { members := {}, root := "archive/", version := 3, byteOrder := .little }
  blobs := .ofList [("0", { key := "0", dtype := .float32, count := 6, size := 24 })]

/-- A view in which the rows overlap, and the one place along the second dimension has a vast stride. -/
def overlappingRows : TensorRef :=
  { dtype := .float32, shape := [2, 1, 3], stride := [1, 1000, 2], storageKey := "0" }

theorem check_eq_ok_iff_overlappingRows : sixNumbers.check overlappingRows = .ok () ∧
    overlappingRows.Regular ∧
    (∀ index, TensorRef.IsIndex index overlappingRows.shape → overlappingRows.address index < 6) ∧
      ∃ last, IsGreatest overlappingRows.addresses last ∧ overlappingRows.extent = last + 1 := by
  have registered : sixNumbers.blobs.get? overlappingRows.storageKey =
      some { key := "0", dtype := .float32, count := 6, size := 24 } := rfl
  have exact := check_eq_ok_iff registered rfl
  have accepted : sixNumbers.check overlappingRows = .ok () := by decide
  obtain ⟨regular, ⟨empty, -⟩ | ⟨-, within⟩⟩ := exact.1.1 accepted
  · exact absurd empty (by decide)
  · exact ⟨accepted, regular, within, exact.2 (by decide) (by decide)⟩

end Checkpoint.Archive.Arena
