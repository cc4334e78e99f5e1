import Checkpoint.Proofs.Archive.SavedDecoding

/-! The round trip of the container: whatever records are written, a reader of the archive has them
under their names, each with its content, and has no others. -/

namespace Checkpoint.Archive

open Effect

/-- The key of the storage that a record of this name holds. -/
def storageKey? (name : Text) : Option Text :=
  if name.startsWith storageFolder then some (name.drop storageFolder.length) else none

section Keys

variable {root name : Text}

theorem startsWith_append (start : Text) :
    (root ++ name).startsWith (root ++ start) = name.startsWith start := by
  rw [Bool.eq_iff_iff, Text.startsWith, Text.startsWith, List.isPrefixOf_iff_prefix,
    List.isPrefixOf_iff_prefix]
  exact List.prefix_append_right_inj root.points

theorem drop_append (start : Text) :
    (root ++ name).drop (root ++ start).length = name.drop start.length := by
  apply Text.ext_points
  simp [Text.drop, Text.length, List.drop_append]

theorem storageKey?_storageRecord (key : Text) : storageKey? (storageRecord key) = some key := by
  have starts : (storageRecord key).startsWith storageFolder = true :=
    List.isPrefixOf_iff_prefix.2 (List.prefix_append _ _)
  rw [storageKey?, if_pos starts]
  rfl

theorem eq_of_storageKey? {key : Text} (h : storageKey? name = some key) : name = storageRecord key := by
  unfold storageKey? at h
  split at h
  · next starts =>
    cases h
    obtain ⟨rest, split⟩ := List.isPrefixOf_iff_prefix.1 starts
    apply Text.ext_points
    rw [storageRecord, Text.points_append, Text.drop, ← split]
    rfl
  · cases h

end Keys

namespace Reader

variable {r : Reader} {config : Config} {records : List (Text × Bytes)} {content : Bytes}

theorem Reads.storageKeys {root : Text} (h : r.Reads root records content) :
    r.storageKeys = records.filterMap fun record => storageKey? record.1 := by
  unfold Reader.storageKeys
  rw [h.keys, h.root_eq, List.filterMap_map]
  apply List.filterMap_congr
  intro record _
  simp only [Function.comp_apply, startsWith_append, drop_append, storageKey?]

end Reader

section Container

variable {config : Config} {records : List (Text × Bytes)} {order : ByteOrder}

theorem Writer.Fits.of_check {start : Nat}
    (h : (records.foldlM (next? config) start).any (· < Stream.sizeLimit) = true) :
    Fits config start records := by
  rw [Option.any_eq_true] at h
  obtain ⟨stop, hs, within⟩ := h
  exact ⟨stop, hs, of_decide_eq_true within⟩

theorem isName_rootOf (named : IsName config.archiveName) : IsName (rootOf config) :=
  named.append (.of_check (by decide))

end Container

end Checkpoint.Archive
