import Checkpoint.Proofs.Json.RoundTrip
import Mathlib.Algebra.Order.BigOperators.Group.List
import Mathlib.Data.List.Perm.Subperm

/-! How many bytes documents take as they are written. -/

namespace Checkpoint.Json

open Text Value

/-- How many bytes code points take. -/
def space (points : List CodePoint) : Nat := (points.flatMap utf8Point).length

section Space

variable {c : CodePoint} {points rest : List CodePoint}

@[simp] theorem space_nil : space [] = 0 := rfl

@[simp] theorem space_cons : space (c :: rest) = (utf8Point c).length + space rest := by
  rw [space, List.flatMap_cons, List.length_append, space]

@[simp] theorem space_append : space (points ++ rest) = space points + space rest := by
  rw [space, List.flatMap_append, List.length_append, space, space]

theorem length_le_space (points : List CodePoint) : points.length ≤ space points :=
  length_le_utf8 ⟨points⟩

theorem length_utf8Point_pos (c : CodePoint) : 0 < (utf8Point c).length := by
  rw [length_utf8Point]
  split_ifs <;> decide

theorem length_utf8Point_ascii (h : c.val < 0x80) : (utf8Point c).length = 1 := by
  rw [length_utf8Point, if_pos h]

theorem space_ascii (h : ∀ c ∈ points, c.val < 0x80) : space points = points.length := by
  induction points with
  | nil => rfl
  | cons c points ih =>
    obtain ⟨first, others⟩ := List.forall_mem_cons.1 h
    rw [space_cons, length_utf8Point_ascii first, ih others, List.length_cons, Nat.add_comm]

theorem space_suffix (h : rest <:+ points) : space rest ≤ space points := by
  obtain ⟨before, rfl⟩ := h
  rw [space_append]
  omega

theorem space_skip (points : List CodePoint) : space (skip points) ≤ space points :=
  space_suffix (List.dropWhile_suffix _)

end Space

/-! ### The size of a document -/

/-- The size of items, each with what separates it from the next or closes the list. -/
def total {α : Type} (size : α → Nat) (items : List α) : Nat := (items.map fun a => size a + 1).sum

namespace Value

mutual

/-- How many bytes a document needs.  How much a double needs is left open. -/
def size : Value → Nat
  | .float _ => 1
  | .array items => max 2 (1 + sizeItems items)
  | .object entries => max 2 (1 + sizeEntries entries)
  | .null => 4
  | .bool true => 4
  | .bool false => 5
  | .int n => (ofInt n).utf8.length
  | .text t => (literal t).utf8.length

def sizeItems : List Value → Nat
  | [] => 0
  | v :: rest => size v + 1 + sizeItems rest

def sizeEntries : List (Text × Value) → Nat
  | [] => 0
  | (key, v) :: rest => (literal key).utf8.length + 1 + size v + 1 + sizeEntries rest

end

end Value

/-- The size of an entry of an object: of its key, of a colon, and of its value. -/
def entrySize (e : Text × Value) : Nat := (literal e.1).utf8.length + 1 + e.2.size

section Size

variable {α : Type} {size : α → Nat} {items others : List α} {a : α}

@[simp] theorem total_nil : total size [] = 0 := rfl

theorem total_cons : total size (a :: items) = size a + 1 + total size items := by
  rw [total, List.map_cons, List.sum_cons, total]

theorem total_append : total size (items ++ others) = total size items + total size others := by
  rw [total, List.map_append, List.sum_append, total, total]

theorem total_le_of_subset (distinct : items.Nodup) (h : items ⊆ others) :
    total size items ≤ total size others := by
  obtain ⟨same, perm, sublist⟩ := distinct.subperm h
  rw [total, total, ← (perm.map _).sum_eq]
  exact (sublist.map _).sum_le_sum fun _ _ => Nat.zero_le _

theorem size_array (items : List Value) :
    (Value.array items).size = max 2 (1 + total Value.size items) := by
  have each : sizeItems items = total Value.size items := by
    induction items with
    | nil => rfl
    | cons v items ih => rw [sizeItems, total_cons, ih]
  rw [Value.size, each]

theorem size_object (entries : List (Text × Value)) :
    (Value.object entries).size = max 2 (1 + total entrySize entries) := by
  have each : sizeEntries entries = total entrySize entries := by
    induction entries with
    | nil => rfl
    | cons e entries ih => rw [sizeEntries, total_cons, ih, entrySize]
  rw [Value.size, each]

theorem length_literal (t : Text) :
    (literal t).utf8.length = space (t.points.flatMap escape) + 2 := by
  change space (literal t).points = _
  rw [points_literal, space_cons, space_append, space_cons, space_nil,
    length_utf8Point_ascii (show doubleQuote.val < 0x80 by decide)]
  omega

theorem length_intercalate {texts : List Text} (filled : texts ≠ []) :
    (intercalate "," texts).utf8.length + 1 = total (fun t => t.utf8.length) texts := by
  induction texts with
  | nil => exact absurd rfl filled
  | cons t texts ih =>
    rw [total_cons]
    cases texts with
    | nil => rfl
    | cons u texts =>
      rw [← ih (List.cons_ne_nil _ _)]
      change space (intercalate "," (t :: u :: texts)).points + 1 =
        space t.points + 1 + (space (intercalate "," (u :: texts)).points + 1)
      rw [intercalate_cons_cons, space_append, space_append, points_comma]
      have one : space [comma] = 1 := by
        decide
      omega

/-- A list in brackets is as long as its items with what is behind each of them, and one bracket more. -/
theorem length_enclosed {open' close : CodePoint} {texts : List Text} (first : open'.val < 0x80)
    (last : close.val < 0x80) :
    space (open' :: ((intercalate "," texts).points ++ [close])) =
      max 2 (1 + total (fun t => t.utf8.length) texts) := by
  rw [space_cons, space_append, space_cons, space_nil, length_utf8Point_ascii first,
    length_utf8Point_ascii last]
  cases texts with
  | nil => rfl
  | cons t texts =>
    rw [← length_intercalate (List.cons_ne_nil t texts)]
    change _ = max 2 (1 + (space (intercalate "," (t :: texts)).points + 1))
    omega

/-- What can be read as it is written is written as so many bytes. -/
theorem length_compact {v : Value} (exact : v.Exact) : v.compact.utf8.length = v.size := by
  induction exact with
  | text t => rfl
  | count _ => rfl
  | @array items _ ih =>
    change space (Value.array items).compact.points = _
    rw [points_array, length_enclosed (by decide) (by decide), size_array, total, total, List.map_map]
    congr 3
    exact List.map_congr_left fun v hv => congrArg (· + 1) (ih v hv)
  | @object entries _ _ ih =>
    change space (Value.object entries).compact.points = _
    rw [points_object, length_enclosed (by decide) (by decide), size_object, total, total, List.map_map]
    congr 3
    refine List.map_congr_left fun e he => congrArg (· + 1) ?_
    rw [entrySize, ← ih e he]
    change space ((literal e.1).points ++ [colon] ++ e.2.compact.points) = _
    rw [space_append, space_append]
    rfl

end Size

end Checkpoint.Json
