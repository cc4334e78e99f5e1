import Checkpoint.Proofs.Effect
import Checkpoint.Proofs.List
import Checkpoint.Safetensors.Writer
import Mathlib.Algebra.Ring.Nat

/-! The ranges of a header: laid out one after the other they tile the payload, and pass the checks. -/

namespace Checkpoint.Safetensors

/-- Each range begins where the one before it ends; the first and the last place are given. -/
inductive Tiles : Nat → List Entry → Nat → Prop
  | nil (position : Nat) : Tiles position [] position
  | cons {position stop : Nat} {e : Entry} {rest : List Entry} : e.start = position →
    Tiles e.stop rest stop → Tiles position (e :: rest) stop

/-- Each range begins where the one before it ends, or behind that. -/
def Follows : Nat → List Entry → Prop
  | _, [] => True
  | position, e :: rest => position ≤ e.start ∧ e.start ≤ e.stop ∧ Follows e.stop rest

section Tiles

variable {position position' stop : Nat} {entries : List Entry}

theorem checkOrder_eq_ok :
    Header.checkOrder position entries = .ok stop ↔ Tiles position entries stop := by
  induction entries generalizing position with
  | nil =>
    rw [Header.checkOrder, Except.ok.injEq]
    constructor
    · rintro rfl
      exact .nil _
    · rintro ⟨_⟩
      rfl
  | cons e entries ih =>
    rw [Header.checkOrder]
    split
    · next same =>
      rw [ih]
      exact ⟨.cons same, fun | .cons _ h => h⟩
    · next other =>
      refine ⟨fun h => ?_, fun | .cons same _ => absurd same other⟩
      split at h <;> cases h

theorem Tiles.le (h : Tiles position entries stop) (ordered : ∀ e ∈ entries, e.start ≤ e.stop) :
    position ≤ stop := by
  induction h with
  | nil => exact Nat.le_refl _
  | cons same _ ih =>
    rw [List.forall_mem_cons] at ordered
    exact same ▸ Nat.le_trans ordered.1 (ih ordered.2)

theorem Tiles.stop_le (h : Tiles position entries stop)
    (ordered : ∀ e ∈ entries, e.start ≤ e.stop) : ∀ e ∈ entries, e.stop ≤ stop := by
  induction h with
  | nil => exact List.forall_mem_nil _
  | cons _ h ih =>
    rw [List.forall_mem_cons] at ordered ⊢
    exact ⟨h.le ordered.2, ih ordered.2⟩

theorem Tiles.le_start (h : Tiles position entries stop)
    (ordered : ∀ e ∈ entries, e.start ≤ e.stop) : ∀ e ∈ entries, position ≤ e.start := by
  induction h with
  | nil => exact List.forall_mem_nil _
  | cons same _ ih =>
    rw [List.forall_mem_cons] at ordered ⊢
    subst same
    exact ⟨Nat.le_refl _, fun e he => Nat.le_trans ordered.1 (ih ordered.2 e he)⟩

/-- Ranges that tile are in the order of the payload. -/
theorem Tiles.pairwise (h : Tiles position entries stop)
    (ordered : ∀ e ∈ entries, e.start ≤ e.stop) : entries.Pairwise fun a b => a.before b = true := by
  induction h with
  | nil => exact .nil
  | @cons _ _ e entries _ h ih =>
    rw [List.forall_mem_cons] at ordered
    refine .cons (fun e' he' => ?_) (ih ordered.2)
    have first := h.le_start ordered.2 e' he'
    have second := ordered.2 e' he'
    have := ordered.1
    simp only [Entry.before, Bool.or_eq_true, Bool.and_eq_true, decide_eq_true_eq, beq_iff_eq]
    omega

theorem Follows.weaken (h : Follows position entries) (le : position' ≤ position) :
    Follows position' entries := by
  cases entries with
  | nil => trivial
  | cons e entries => exact ⟨Nat.le_trans le h.1, h.2⟩

theorem Follows.sublist {kept : List Entry} (h : Follows position entries)
    (sublist : kept.Sublist entries) : Follows position kept := by
  induction sublist generalizing position with
  | slnil => trivial
  | cons e _ ih => exact ih (h.2.2.weaken (Nat.le_trans h.1 h.2.1))
  | cons_cons e _ ih => exact ⟨h.1, h.2.1, ih h.2.2⟩

theorem Follows.le_start (h : Follows position entries) : ∀ e ∈ entries, position ≤ e.start := by
  induction entries generalizing position with
  | nil => exact List.forall_mem_nil _
  | cons e entries ih =>
    refine List.forall_mem_cons.2 ⟨h.1, fun e' he' => ?_⟩
    exact Nat.le_trans (Nat.le_trans h.1 h.2.1) (ih h.2.2 e' he')

/-- None of them begins before an earlier one ends. -/
theorem Follows.pairwise (h : Follows position entries) :
    entries.Pairwise fun a b => a.stop ≤ b.start := by
  induction entries generalizing position with
  | nil => exact .nil
  | cons e entries ih => exact .cons h.2.2.le_start (ih h.2.2)

theorem Tiles.follows (h : Tiles position entries stop)
    (ordered : ∀ e ∈ entries, e.start ≤ e.stop) : Follows position entries := by
  induction h with
  | nil => trivial
  | cons same _ ih =>
    rw [List.forall_mem_cons] at ordered
    exact ⟨Nat.le_of_eq same.symm, ordered.1, ih ordered.2⟩

end Tiles

namespace Header

variable {h : Header} {payload : Option Int} {stop : Nat}

theorem checkSizes_eq_ok {entries : List Entry} :
    checkSizes entries = .ok () ↔ ∀ e ∈ entries, e.size = e.needed := by
  induction entries with
  | nil => simp [checkSizes]
  | cons e entries ih =>
    rw [checkSizes, List.forall_mem_cons]
    split
    · next same => rw [ih, and_iff_right same]
    · next other =>
      refine ⟨fun h => ?_, fun h => absurd h.1 other⟩
      split at h <;> cases h

/-- A header passes the checks if its ranges have the right sizes, and in the order of the payload tile
it. -/
theorem validate_eq_ok : h.validate payload = .ok () ↔ (∀ e ∈ h.entries, e.size = e.needed) ∧
    ∃ stop, Tiles 0 h.inFileOrder stop ∧ ∀ held ∈ payload, (stop : Int) = held := by
  unfold validate
  simp only [bind_eq_ok, mapError_eq_ok, checkOrder_eq_ok]
  constructor
  · rintro ⟨_, sizes, stop, tiles, held⟩
    refine ⟨checkSizes_eq_ok.1 sizes, stop, tiles, fun size hs => ?_⟩
    obtain rfl : payload = some size := hs
    dsimp only at held
    split at held
    · cases held
    · next same => exact not_not.1 same
  · rintro ⟨sizes, stop, tiles, held⟩
    refine ⟨(), checkSizes_eq_ok.2 sizes, stop, tiles, ?_⟩
    cases payload with
    | none => rfl
    | some size => exact if_neg (not_not.2 (held size rfl))

theorem validate_none (valid : h.validate payload = .ok ()) : h.validate none = .ok () := by
  obtain ⟨sizes, stop, tiles, -⟩ := validate_eq_ok.1 valid
  exact validate_eq_ok.2 ⟨sizes, stop, tiles, nofun⟩

end Header

/-! ### Laying out -/

section LayOut

/-- An entry of a tensor, of the tensor's name, type and shape. -/
def Entry.Names (e : Entry) (named : Text × Tensor) : Prop :=
  e.name = named.1 ∧ e.dtype = named.2.dtype ∧ e.shape = named.2.shape ∧
    e.stop = e.start + named.2.numel * named.2.dtype.size

variable {e : Entry} {named : Text × Tensor} {start : Nat} {tensors : List (Text × Tensor)}

theorem Entry.Names.ordered (h : e.Names named) : e.start ≤ e.stop :=
  h.2.2.2 ▸ Nat.le_add_right ..

theorem Entry.Names.size_eq (h : e.Names named) : e.size = named.2.numel * named.2.dtype.size := by
  rw [Entry.size, h.2.2.2, Nat.add_sub_cancel_left]

theorem Entry.Names.size_eq_needed (h : e.Names named) : e.size = e.needed := by
  rw [h.size_eq, Entry.needed, h.2.1, h.2.2.1]
  rfl

theorem layOut_names (start : Nat) (tensors : List (Text × Tensor)) :
    List.Forall₂ Entry.Names (layOut start tensors) tensors := by
  induction tensors generalizing start with
  | nil => exact .nil
  | cons named tensors ih => exact .cons ⟨rfl, rfl, rfl, rfl⟩ (ih _)

theorem map_name_layOut (start : Nat) (tensors : List (Text × Tensor)) :
    (layOut start tensors).map Entry.name = tensors.map Prod.fst := by
  induction tensors generalizing start with
  | nil => rfl
  | cons named tensors ih => rw [layOut, List.map_cons, ih]; rfl

/-- How many bytes tensors have. -/
def payloadSize (tensors : List (Text × Tensor)) : Nat :=
  (tensors.map fun named => named.2.numel * named.2.dtype.size).sum

theorem tiles_layOut (start : Nat) (tensors : List (Text × Tensor)) :
    Tiles start (layOut start tensors) (start + payloadSize tensors) := by
  induction tensors generalizing start with
  | nil => exact .nil start
  | cons named tensors ih =>
    have := ih (start + named.2.numel * named.2.dtype.size)
    rw [Nat.add_assoc] at this
    rw [payloadSize, List.map_cons, List.sum_cons]
    exact .cons rfl this

theorem ordered_layOut : ∀ e ∈ layOut start tensors, e.start ≤ e.stop := by
  have names := layOut_names start tensors
  intro e he
  obtain ⟨named, -, h⟩ := exists_of_forall₂ names he
  exact h.ordered

theorem inFileOrder_layOut (metadata : Option (List (Text × Text))) :
    Header.inFileOrder { entries := layOut start tensors, metadata } = layOut start tensors :=
  List.mergeSort_of_pairwise ((tiles_layOut start tensors).pairwise ordered_layOut)

end LayOut

end Checkpoint.Safetensors
