import Checkpoint.Proofs.Archive.Writing
import Checkpoint.Proofs.Zip.Placing
import Mathlib.Data.List.Forall2

/-! Where the contents of records begin.  The padding is worked out before the header is written, from
the place and the name alone; the content begins at a multiple of the alignment because the header is
written at that place and holds that name, whole. -/

namespace Checkpoint.Archive

open Effect

/-- The padding of a header: nothing if there is nothing to align, and else one tagged field that says how
long it is, which is less than the alignment. -/
def Pads (alignment : Nat) (extra : Bytes) : Prop :=
  alignment = 1 ∧ extra = [] ∨ ∃ pad < alignment,
    extra = [0x46, 0x42] ++ Bytes.littleEndian 2 pad ++ List.replicate pad 0x5a ∧
      Zip.fieldAt extra 2 2 = pad

/-- What the padding of a record is worked out for: a name that the header holds whole, and not up to its
first NUL, and a content short enough for its size to need no field of its own (headers have none here). -/
structure Foreseen (name : Text) (data : Bytes) : Prop where
  whole : (0 : CodePoint) ∉ name.points
  short : 21 * data.length ≤ 20 * 0x7fffffff

/-- A record is there as a member: its header where the directory says, its content behind that. -/
structure Aligned (config : Config) (content : Bytes) (origin stop : Nat) (record : Text × Bytes)
    (m : Zip.Member) : Prop where
  name : m.name = rootOf config ++ record.1
  writable : Zip.Writer.Writable m
  pads : Pads config.storageAlignment m.extra
  stands : Stream.Stands content (origin + m.headerOffset) (m.localHeader ++ record.2)
  within : m.headerOffset + (m.localHeader ++ record.2).length ≤ stop
  aligned : Foreseen m.name record.2 → config.storageAlignment ∣ m.headerOffset + m.localHeader.length

theorem Aligned.keep {config : Config} {content content' : Bytes} {origin stop stop' : Nat}
    {record : Text × Bytes} {m : Zip.Member} (h : Aligned config content origin stop record m)
    (keeps : Stream.Keeps (origin + stop) content content') (le : stop ≤ stop') :
    Aligned config content' origin stop' record m where
  name := h.name
  writable := h.writable
  pads := h.pads
  stands := keeps _ _ (by have := h.within; omega) h.stands
  within := Nat.le_trans h.within le
  aligned := h.aligned

/-- What is missing to the next multiple. -/
theorem dvd_add_padding {alignment : Nat} (sized : 0 < alignment) (n : Nat) :
    alignment ∣ n + (alignment - n % alignment) % alignment := by
  have below : n % alignment ≤ alignment := (Nat.mod_lt n sized).le
  apply Nat.dvd_of_mod_eq_zero
  rw [Nat.add_mod_mod, ← Nat.mod_add_mod, Nat.add_sub_cancel' below, Nat.mod_self]

namespace Writer

variable {w : Writer} {config : Config} {records : List (Text × Bytes)} {origin : Nat}

theorem pads_padding {alignment start nameLength : Nat} {extra : Bytes} (sized : 1 ≤ alignment)
    (h : padding alignment start nameLength = .ok extra) : Pads alignment extra ∧
      alignment ∣ start + Zip.localHeaderSize + nameLength + extra.length := by
  unfold padding at h
  split at h
  · next unaligned =>
    cases h
    obtain rfl : alignment = 1 := Nat.le_antisymm unaligned sized
    exact ⟨.inl ⟨rfl, rfl⟩, Nat.one_dvd _⟩
  · dsimp only at h
    split at h
    · cases h
    · next fits =>
      cases h
      constructor
      · refine .inr ⟨_, Nat.mod_lt _ sized, rfl, ?_⟩
        change Bytes.fromLittleEndian (List.take 2 (Bytes.littleEndian 2 _ ++ _)) = _
        rw [List.take_left' (Bytes.length_littleEndian ..)]
        exact Bytes.fromLittleEndian_of_lt (by omega)
      · have next := dvd_add_padding sized (start + Zip.localHeaderSize + nameLength + 4)
        rw [Nat.add_assoc _ 4] at next
        simpa only [List.length_append, List.length_cons, List.length_nil, List.length_replicate,
          Bytes.length_littleEndian, Nat.reduceAdd] using next

theorem pads_paddingFor {name : Text} {extra : Bytes} (sized : 1 ≤ w.config.storageAlignment)
    (h : w.paddingFor name = .ok extra) : Pads w.config.storageAlignment extra ∧
      w.config.storageAlignment ∣
        w.zip.directoryStart + Zip.localHeaderSize + name.utf8.length + extra.length := by
  unfold paddingFor at h
  split at h
  · next unaligned =>
    cases h
    have one : w.config.storageAlignment = 1 := Nat.le_antisymm unaligned sized
    rw [one]
    exact ⟨.inl ⟨rfl, rfl⟩, Nat.one_dvd _⟩
  · split at h
    · cases h
    · next bytes strict =>
      rw [(Text.eq_of_strictUtf8? strict).2] at h
      exact pads_padding sized h

/-- A writer all of whose members are records, each aligned. -/
structure Aligns (w : Writer) (config : Config) (origin : Nat) (records : List (Text × Bytes)) : Prop where
  settings : w.config = config
  arrived : w.zip.At origin w.zip.directoryStart
  aligned : List.Forall₂ (Aligned config w.zip.stream.content origin w.zip.directoryStart) records
    w.zip.members

/-- A member that has been placed behind the records is aligned too, and leaves them alone. -/
theorem Aligns.add {name : Text} {data extra : Bytes} {z : Zip.Writer} (h : w.Aligns config origin records)
    (sized : 1 ≤ config.storageAlignment) (padded : w.paddingFor (w.root ++ name) = .ok extra)
    (placed : let m := Zip.Writer.memberAt w.zip.rewinds (w.root ++ name) extra data w.zip.directoryStart
      Zip.Writer.checkHeader m = .ok () ∧ w.zip.Placed z origin m data) (listed : List Text) :
    Aligns { w with zip := z, records := listed } config origin (records ++ [(name, data)]) := by
  obtain ⟨checked, placed⟩ := placed
  have root : w.root = rootOf config := congrArg rootOf h.settings
  have later := placed.behind
  rw [List.length_append] at later
  refine ⟨h.settings, placed.arrived, ?_⟩
  change List.Forall₂ (Aligned config z.stream.content origin z.directoryStart) _ z.members
  rw [placed.members]
  apply List.rel_append
  · refine h.aligned.imp fun record m before => before.keep placed.keeps ?_
    exact Nat.le_trans (Nat.le_add_right ..) later
  · obtain ⟨pads, next⟩ := pads_paddingFor (h.settings ▸ sized) padded
    rw [h.settings] at pads next
    refine .cons ⟨congrArg (· ++ name) root, Zip.Writer.writable_of_checkHeader checked, pads,
      placed.stands, placed.behind, fun foreseen => ?_⟩ .nil
    -- The padding counted the name with its NULs, and the header holds what is in front of the first.
    rw [Zip.Member.localHeader, Zip.Member.length_headerWith, Zip.Member.nameBytes,
      storedName_of_whole foreseen.whole, ← Nat.add_assoc, ← Nat.add_assoc]
    exact next

end Writer

end Checkpoint.Archive
