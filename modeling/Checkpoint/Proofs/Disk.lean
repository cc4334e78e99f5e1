import Checkpoint.Disk
import Checkpoint.Proofs.Effect
import Checkpoint.Proofs.Table

/-! Files: what has been written where a path leads is read from that path. -/

namespace Checkpoint.Disk

variable {d : Disk} {place stored : Place} {content : Bytes}

/-- A file changes no way that leads through directories only. -/
theorem walk_store {start : Place} {parts : List Text} (h : d.walk start parts = .ok place) :
    (d.store stored content).walk start parts = .ok place := by
  induction parts generalizing start with
  | nil => exact h
  | cons part parts ih =>
    rw [walk] at h ⊢
    split at h
    · next directory =>
      have directory : (d.store stored content).isDirectory start = true := directory
      rw [if_pos directory]
      split at h
      · cases h
      · next short =>
        rw [if_neg short]
        exact ih h
    · split at h <;> cases h

theorem resolve_store {p : Path} (h : d.resolve p = .ok place) :
    (d.store stored content).resolve p = .ok place := by
  unfold resolve at h ⊢
  split at h
  · cases h
  · next short =>
    rw [if_neg short]
    exact walk_store h

/-- What is written at a path is read there. -/
theorem read_store {path : Text} (h : d.writable path = .ok place) (content : Bytes) :
    (d.store place content).read path = .ok content := by
  unfold writable at h
  dsimp only at h
  split at h
  · cases h
  · next bytes encoded =>
    split at h
    · cases h
    · next plain =>
      rw [mapError_eq_ok, locate, bind_eq_ok] at h
      obtain ⟨found, resolved, h⟩ := h
      split at h
      · cases h
      · next file =>
        cases h
        have held : (d.store place content).content (Path.ofText path) = .ok content := by
          have file : ¬ (d.store place content).isDirectory place = true := file
          have found : (d.store place content).files.get? place = some content :=
            Table.get?_insert_self ..
          rw [Disk.content, resolve_store resolved]
          simp only [bind, Except.bind, if_neg file, found]
          rfl
        have kept : ((some bytes).filter fun bytes => !bytes.contains 0) = some bytes := by
          rw [Option.filter_some, if_pos (by simpa using plain)]
        rw [read, encoded, held, kept]

end Checkpoint.Disk
