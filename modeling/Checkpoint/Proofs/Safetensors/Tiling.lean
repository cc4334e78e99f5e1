import Checkpoint.Proofs.Safetensors.Layout

/-! The check of the ranges is exact: it tries one order only, that of the payload, and finds a tiling
whenever there is one in any order. -/

namespace Checkpoint.Safetensors

namespace Entry

variable {a b c : Entry}

theorem before_iff : a.before b = true ↔ a.start < b.start ∨ a.start = b.start ∧ a.stop ≤ b.stop := by
  simp only [before, Bool.or_eq_true, Bool.and_eq_true, decide_eq_true_eq, beq_iff_eq]

theorem before_trans (a b c : Entry) (h : a.before b = true) (h' : b.before c = true) :
    a.before c = true := by
  rw [before_iff] at *
  omega

theorem before_total (a b : Entry) : (a.before b || b.before a) = true := by
  rw [Bool.or_eq_true, before_iff, before_iff]
  omega

/-- The first byte of an entry's range, and the first byte after it. -/
def range (e : Entry) : Nat × Nat := (e.start, e.stop)

/-- Whether a byte of the payload lies in the range. -/
def covers (e : Entry) (i : Nat) : Bool := e.start ≤ i && i < e.stop

theorem covers_iff {e : Entry} {i : Nat} : e.covers i = true ↔ e.start ≤ i ∧ i < e.stop := by
  simp only [covers, Bool.and_eq_true, decide_eq_true_eq]

end Entry

section Tiles

variable {position stop : Nat} {entries arranged : List Entry}

/-- Whether entries tile the payload depends on their ranges alone. -/
theorem Tiles.congr (h : Tiles position entries stop)
    (same : entries.map Entry.range = arranged.map Entry.range) : Tiles position arranged stop := by
  induction h generalizing arranged with
  | nil =>
    obtain rfl := List.map_eq_nil_iff.1 same.symm
    exact .nil _
  | cons start _ ih =>
    obtain ⟨e, others, rfl, range, same⟩ := List.map_eq_cons_iff.1 same.symm
    obtain ⟨first, last⟩ := Prod.mk.inj range
    exact .cons (first.trans start) (last ▸ ih same.symm)

/-- Of all orders of some entries, that of the payload is the one that tiles it, if any does. -/
theorem Tiles.mergeSort (h : Tiles position arranged stop) (perm : arranged.Perm entries)
    (ordered : ∀ e ∈ entries, e.start ≤ e.stop) :
    Tiles position (entries.mergeSort Entry.before) stop := by
  refine h.congr ?_
  have sorted : arranged.Pairwise fun a b => a.before b = true :=
    h.pairwise fun e he => ordered e (perm.mem_iff.1 he)
  have payload : (entries.mergeSort Entry.before).Pairwise fun a b => a.before b = true :=
    List.pairwise_mergeSort Entry.before_trans Entry.before_total entries
  -- Entries without bytes may change places, so that only the ranges come in the same order.
  have ranges {l : List Entry} (hl : l.Pairwise fun a b => a.before b = true) :
      (l.map Entry.range).Pairwise fun a b => a.1 < b.1 ∨ a.1 = b.1 ∧ a.2 ≤ b.2 :=
    List.pairwise_map.2 (hl.imp Entry.before_iff.1)
  refine List.Perm.eq_of_pairwise ?_ (ranges sorted) (ranges payload) ?_
  · rintro ⟨m, n⟩ ⟨m', n'⟩ - - h h'
    exact Prod.ext (by simp only at h h' ⊢; omega) (by simp only at h h' ⊢; omega)
  · exact (perm.trans (List.mergeSort_perm entries _).symm).map Entry.range

/-- Tiles that end at a place end where the last of them does. -/
theorem Tiles.getLast (h : Tiles position entries stop) :
    (entries.getLast?.map Entry.stop).getD position = stop := by
  induction h with
  | nil => rfl
  | @cons _ _ e rest _ _ ih =>
    cases rest with
    | nil => exact ih
    | cons e' rest => rwa [List.getLast?_cons_cons, List.getLast?_cons] at *

/-- No end is behind the last one. -/
theorem Tiles.foldl_max (h : Tiles position entries stop) (ordered : ∀ e ∈ entries, e.start ≤ e.stop) :
    (entries.map Entry.stop).foldl max position = stop := by
  induction h with
  | nil => rfl
  | cons start _ ih =>
    obtain ⟨first, others⟩ := List.forall_mem_cons.1 ordered
    rw [List.map_cons, List.foldl_cons, Nat.max_eq_right (start ▸ first)]
    exact ih others

/-- What is tiled is covered once, and nothing else is. -/
theorem Tiles.countP_covers (h : Tiles position entries stop)
    (ordered : ∀ e ∈ entries, e.start ≤ e.stop) (i : Nat) :
    entries.countP (·.covers i) = if position ≤ i ∧ i < stop then 1 else 0 := by
  induction h with
  | nil position =>
    rw [List.countP_nil, if_neg (by omega)]
  | @cons position stop e rest start tiles ih =>
    obtain ⟨first, others⟩ := List.forall_mem_cons.1 ordered
    have behind := tiles.le others
    rw [List.countP_cons, ih others]
    by_cases here : e.covers i = true
    · have inside := Entry.covers_iff.1 here
      rw [if_pos here, if_neg (by omega), if_pos (by omega)]
    · have outside := here
      rw [Entry.covers_iff] at outside
      rw [if_neg here, Nat.add_zero]
      congr 1
      rw [eq_iff_iff]
      omega

end Tiles

/-- The entries of a header in an order in which their ranges follow one another, from the start of the
payload up to a place. -/
structure Header.Arranged (h : Header) (arranged : List Entry) (stop : Nat) : Prop where
  perm : arranged.Perm h.entries
  tiles : Tiles 0 arranged stop

namespace Header

variable {h : Header} {payload : Option Int} {arranged : List Entry} {stop : Nat}

theorem Arranged.ordered (h' : h.Arranged arranged stop) (ordered : ∀ e ∈ h.entries, e.start ≤ e.stop) :
    ∀ e ∈ arranged, e.start ≤ e.stop :=
  fun e he => ordered e (h'.perm.mem_iff.1 he)

theorem Arranged.payloadSize_eq (h' : h.Arranged arranged stop)
    (ordered : ∀ e ∈ h.entries, e.start ≤ e.stop) : h.payloadSize = stop := by
  rw [← h'.tiles.foldl_max (h'.ordered ordered), payloadSize]
  exact (h'.perm.map Entry.stop).symm.foldl_eq' (fun _ _ _ _ _ => by omega) 0

theorem Arranged.countP_covers (h' : h.Arranged arranged stop)
    (ordered : ∀ e ∈ h.entries, e.start ≤ e.stop) (i : Nat) :
    h.entries.countP (·.covers i) = if i < stop then 1 else 0 := by
  rw [← h'.perm.countP_eq, h'.tiles.countP_covers (h'.ordered ordered)]
  simp only [Nat.zero_le, true_and]

theorem arranged_inFileOrder (h : Header) (tiles : Tiles 0 h.inFileOrder stop) :
    h.Arranged h.inFileOrder stop :=
  ⟨List.mergeSort_perm .., tiles⟩

/-- A header passes the checks if and only if each range has the size that its type and shape need, and
the ranges tile the payload in some order.  Then each byte of the payload lies in one range, and the
payload ends where the last range does. -/
theorem validate_iff_arranged (ordered : ∀ e ∈ h.entries, e.start ≤ e.stop) :
    (h.validate payload = .ok () ↔ (∀ e ∈ h.entries, e.size = e.needed) ∧
      ∃ arranged stop, h.Arranged arranged stop ∧ ∀ held ∈ payload, (stop : Int) = held) ∧
    (h.validate payload = .ok () →
      (∀ i, h.entries.countP (·.covers i) = if i < h.payloadSize then 1 else 0) ∧
      (∀ held ∈ payload, (h.payloadSize : Int) = held) ∧
      ∀ arranged stop, h.Arranged arranged stop → stop = h.payloadSize ∧
        (arranged.getLast?.map Entry.stop).getD 0 = h.payloadSize) := by
  constructor
  · rw [validate_eq_ok]
    refine and_congr_right fun _ => ⟨?_, ?_⟩
    · rintro ⟨stop, tiles, held⟩
      exact ⟨_, stop, h.arranged_inFileOrder tiles, held⟩
    · rintro ⟨arranged, stop, h', held⟩
      exact ⟨stop, h'.tiles.mergeSort h'.perm ordered, held⟩
  · intro valid
    obtain ⟨-, stop, tiles, held⟩ := validate_eq_ok.1 valid
    have sorted := h.arranged_inFileOrder tiles
    obtain rfl := sorted.payloadSize_eq ordered
    refine ⟨sorted.countP_covers ordered, held, fun arranged stop h' => ?_⟩
    obtain rfl := h'.payloadSize_eq ordered
    exact ⟨rfl, h'.tiles.getLast⟩

/-- A header whose document starts with the last range, and has an entry without bytes in front of that. -/
def shuffled : Header where
  entries := [
    { name := "last", dtype := .uint8, shape := [2], start := 4, stop := 6 },
    { name := "none", dtype := .float32, shape := [0, 3], start := 4, stop := 4 },
    { name := "first", dtype := .float32, shape := [], start := 0, stop := 4 }]

theorem validate_iff_arranged_shuffled : (∀ e ∈ shuffled.entries, e.start ≤ e.stop) ∧
    shuffled.validate (some 6) = .ok () ∧
    (∀ i, shuffled.entries.countP (·.covers i) = if i < 6 then 1 else 0) ∧
    shuffled.validate (some 7) ≠ .ok () := by
  have ordered : ∀ e ∈ shuffled.entries, e.start ≤ e.stop := by
    decide
  have arranged : shuffled.Arranged shuffled.entries.reverse 6 :=
    ⟨List.reverse_perm _, .cons rfl (.cons rfl (.cons rfl (.nil 6)))⟩
  have valid : shuffled.validate (some 6) = .ok () := by
    refine (validate_iff_arranged ordered).1.2 ⟨by decide, _, 6, arranged, ?_⟩
    rintro _ ⟨⟩
    rfl
  refine ⟨ordered, valid, ((validate_iff_arranged ordered).2 valid).1, fun longer => ?_⟩
  have held := ((validate_iff_arranged ordered).2 longer).2.1 7 rfl
  revert held
  decide

end Header

end Checkpoint.Safetensors
