import Checkpoint.Pickle.Encoder
import Mathlib.Data.List.Forall2

/-! Batches: runs of items that make up the items, in order. -/

namespace Checkpoint.Pickle.Encoder

variable {α β : Type}

theorem flatten_batches (size : Nat) (items : List α) :
    (batches size items).flatten = items := by
  induction items using batches.induct size with
  | case1 items h =>
    rw [batches, if_pos h, List.flatten_nil, List.isEmpty_iff.1 h]
  | case2 items h h0 =>
    rw [batches, if_neg h, if_pos h0, List.flatten_singleton]
  | case3 items h h0 ih =>
    rw [batches, if_neg h, if_neg h0, List.flatten_cons, ih, List.take_append_drop]

theorem batches_map (f : α → β) (size : Nat) (items : List α) :
    batches size (items.map f) = (batches size items).map (List.map f) := by
  induction items using batches.induct size with
  | case1 items h =>
    rw [batches, if_pos (by simpa using h), batches, if_pos h, List.map_nil]
  | case2 items h h0 =>
    rw [batches, if_neg (by simpa using h), if_pos h0, batches, if_neg h, if_pos h0,
      List.map_singleton]
  | case3 items h h0 ih =>
    rw [batches, if_neg (by simpa using h), if_neg h0, batches.eq_def size items, if_neg h,
      if_neg h0, List.map_cons, ← ih, List.map_take, List.map_drop]

theorem mem_of_mem_batches {size : Nat} {items batch : List α} {item : α}
    (hb : batch ∈ batches size items) (hi : item ∈ batch) : item ∈ items := by
  rw [← flatten_batches size items]
  exact List.mem_flatten.2 ⟨batch, hb, hi⟩

theorem forall₂_batches {R : α → β → Prop} (size : Nat) {xs : List α} {ys : List β}
    (h : List.Forall₂ R xs ys) : List.Forall₂ (List.Forall₂ R) (batches size xs) (batches size ys) := by
  induction xs using batches.induct size generalizing ys with
  | case1 xs none =>
    obtain rfl := List.isEmpty_iff.1 none
    cases h
    rw [batches.eq_def size ([] : List α), batches.eq_def size ([] : List β)]
    exact .nil
  | case2 xs some unbounded =>
    have some' : ¬ ys.isEmpty = true := by
      simpa only [List.isEmpty_iff_length_eq_zero, h.length_eq] using some
    rw [batches.eq_def size xs, batches.eq_def size ys, if_neg some, if_neg some', if_pos unbounded,
      if_pos unbounded]
    exact .cons h .nil
  | case3 xs some bounded ih =>
    have some' : ¬ ys.isEmpty = true := by
      simpa only [List.isEmpty_iff_length_eq_zero, h.length_eq] using some
    rw [batches.eq_def size xs, batches.eq_def size ys, if_neg some, if_neg some', if_neg bounded,
      if_neg bounded]
    exact .cons (List.forall₂_take size h) (ih (List.forall₂_drop size h))

end Checkpoint.Pickle.Encoder
