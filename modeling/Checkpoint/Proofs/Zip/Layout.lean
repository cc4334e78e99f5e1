import Checkpoint.Proofs.Zip.Reading

/-! Members stand in an archive one behind the other, so each has room up to the next, and all are read
back as they were written. -/

namespace Checkpoint.Zip

open Effect

/-- Members with their contents, as they stand in an archive. -/
structure Holds (bytes : Bytes) (items : List (Member × Bytes)) : Prop where
  placed : ∀ item ∈ items, ∃ a c, bytes = a ++ (item.1.localHeader ++ (item.2 ++ c)) ∧
    item.1.headerOffset = a.length
  covers : ∀ item ∈ items, item.1.Covers item.2
  apart : items.Pairwise fun a b => a.1.stop ≤ b.1.headerOffset

variable {bytes content : Bytes} {items : List (Member × Bytes)} {m : Member} {data : Bytes}

theorem holds_nil (bytes : Bytes) : Holds bytes [] := ⟨nofun, nofun, .nil⟩

theorem Holds.stop_le (h : Holds bytes items) {item : Member × Bytes} (hi : item ∈ items) :
    item.1.stop ≤ bytes.length := by
  obtain ⟨a, c, split, ho⟩ := h.placed item hi
  rw [split, Member.stop, ho, (h.covers item hi).size]
  simp only [List.length_append]
  omega

theorem Holds.fits (h : Holds bytes items) (short : bytes.length < 256 ^ 4)
    {item : Member × Bytes} (hi : item ∈ items) (sound : item.1.Sound) : item.1.Fits where
  toSound := sound
  size := by
    have := h.stop_le hi
    unfold Member.stop at this
    omega
  headerOffset := by
    have := h.stop_le hi
    unfold Member.stop at this
    omega

theorem Member.headerOffset_lt_stop (m : Member) : m.headerOffset < m.stop := by
  have header : 0 < m.localHeader.length := by
    simp [localHeader, localHeaderSize]
  unfold stop
  omega

theorem Holds.snoc (h : Holds bytes items) (name : Text) (extra data : Bytes) :
    Holds (bytes ++ (Member.at name extra data bytes.length).localHeader ++ data)
      (items ++ [(Member.at name extra data bytes.length, data)]) where
  placed := by
    rw [List.forall_mem_append, List.forall_mem_singleton]
    refine ⟨?_, bytes, [], by simp, rfl⟩
    intro item hi
    obtain ⟨a, c, split, ho⟩ := h.placed item hi
    exact ⟨a, c ++ ((Member.at name extra data bytes.length).localHeader ++ data),
      by simp [split], ho⟩
  covers := by
    rw [List.forall_mem_append, List.forall_mem_singleton]
    exact ⟨h.covers, rfl, rfl⟩
  apart := by
    rw [List.pairwise_append]
    refine ⟨h.apart, List.pairwise_singleton _ _, ?_⟩
    rintro item hi _ hl
    obtain rfl := List.mem_singleton.1 hl
    exact h.stop_le hi

theorem le_foldl_min {bound next : Int} {others : List Int} (hn : bound ≤ next)
    (ho : ∀ x ∈ others, bound ≤ x) : bound ≤ others.foldl min next := by
  induction others generalizing next with
  | nil => exact hn
  | cons x others ih =>
    obtain ⟨hx, ho⟩ := List.forall_mem_cons.1 ho
    exact ih (le_min hn hx) ho

/-- An entry has room up to every place that no other member or directory is in front of. -/
theorem Directory.le_limit {d : Directory} {index : Nat} {e : Entry} {bound : Int}
    (first : ∀ e' ∈ d.entries.take index, e'.headerOffset ≠ e.headerOffset)
    (next : ∀ e' ∈ d.entries, e.headerOffset < e'.headerOffset → bound ≤ e'.headerOffset)
    (last : bound ≤ d.start) : bound ≤ d.limit index e := by
  have alone : ¬ ((d.entries.take index).any (·.headerOffset == e.headerOffset)) = true := by
    simpa using first
  have behind : ∀ x ∈ (d.entries.map Entry.headerOffset).filter (e.headerOffset < ·), bound ≤ x := by
    simpa using next
  unfold Directory.limit
  rw [if_neg alone]
  split
  · exact last
  · next x others hx =>
    rw [hx] at behind
    obtain ⟨hx, ho⟩ := List.forall_mem_cons.1 behind
    exact le_foldl_min hx ho

/-- The directory of the members of an archive. -/
def directoryOf (bytes : Bytes) (items : List (Member × Bytes)) : Directory where
  entries := items.map fun item => item.1.entry
  start := bytes.length

theorem Holds.stop_le_limit {before after : List (Member × Bytes)}
    (h : Holds bytes (before ++ (m, data) :: after)) :
    m.stop ≤ (directoryOf bytes (before ++ (m, data) :: after)).limit before.length m.entry := by
  have apart := h.apart
  rw [List.pairwise_append, List.pairwise_cons] at apart
  obtain ⟨-, ⟨behind, -⟩, front⟩ := apart
  have self := m.headerOffset_lt_stop
  have earlier : ∀ item ∈ before, item.1.headerOffset < m.headerOffset := by
    intro item hi
    exact Nat.lt_of_lt_of_le item.1.headerOffset_lt_stop (front item hi _ List.mem_cons_self)
  apply Directory.le_limit
  · intro e he
    have taken : ((before ++ (m, data) :: after).map fun item => item.1.entry).take before.length =
        before.map fun item => item.1.entry := by
      rw [List.map_append, List.take_left' (List.length_map _)]
    simp only [directoryOf, taken, List.mem_map] at he
    obtain ⟨item, hi, rfl⟩ := he
    have := earlier item hi
    simp only [Member.entry, ne_eq, Int.ofNat_inj]
    omega
  · simp only [directoryOf, List.map_append, List.map_cons, List.forall_mem_append,
      List.forall_mem_cons, List.forall_mem_map, Member.entry, Int.ofNat_lt, Int.ofNat_le]
    refine ⟨?_, fun h => absurd h (Nat.lt_irrefl _), fun item hi _ => behind item hi⟩
    intro item hi hl
    exact absurd hl (Nat.lt_asymm (earlier item hi))
  · have self : (m, data) ∈ before ++ (m, data) :: after := by
      simp
    exact Int.ofNat_le.2 (h.stop_le self)

theorem Holds.ensures_content {before after : List (Member × Bytes)} {s : Stream} {rest : Bytes}
    {Q : Bytes → Stream → Prop} {E : Error → Stream → Prop}
    (h : Holds bytes (before ++ (m, data) :: after)) (fits : m.Fits) (hs : s.Has content)
    (split : content = bytes ++ rest) (hq : ∀ t, t.Has content → Q data t) :
    Ensures (do
      let opened ← openEntry m.entry
        ((directoryOf bytes (before ++ (m, data) :: after)).limit before.length m.entry)
      opened.readRange 0 none) s Q E := by
  have listed : (m, data) ∈ before ++ (m, data) :: after := by
    simp
  have covers := h.covers _ listed
  obtain ⟨a, c, placed, ho⟩ := h.placed _ listed
  have header : content = a ++ (m.localHeader ++ (data ++ (c ++ rest))) := by
    simp [split, placed]
  have behind : content = (a ++ m.localHeader) ++ (data ++ (c ++ rest)) := by
    simp [header]
  rw [ensures_bind]
  apply ensures_openEntry hs fits header ho covers.size h.stop_le_limit
  intro t ht
  exact ensures_readRange ht behind covers hq

end Checkpoint.Zip
