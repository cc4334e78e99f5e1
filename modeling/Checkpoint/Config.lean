import Checkpoint.Error
/-!
Limits and layout choices shared by all operations.  A `Config` has passed its checks; `Settings`
are what a caller asks for.
-/

namespace Checkpoint

/-- The limits and choices as they are asked for; any numbers will do. -/
structure Settings where
  maxStackDepth : Int := 100000
  maxMemoSize : Int := 1000000
  maxHeaderSize : Int := 104857600
  archiveName : Text := "archive"
  writeByteOrder : Bool := true
  storageAlignment : Int := 64
  batchSize : Int := 1000

structure Config where
  maxStackDepth : Nat := 100000
  maxMemoSize : Int := 1000000
  maxHeaderSize : Nat := 104857600
  archiveName : Text := "archive"
  writeByteOrder : Bool := true
  storageAlignment : Nat := 64
  batchSize : Nat := 1000
  maxStackDepth_pos : 0 < maxStackDepth := by decide
  maxHeaderSize_pos : 0 < maxHeaderSize := by decide
  batchSize_pos : 0 < batchSize := by decide
  archiveName_ne : archiveName.isEmpty = false := by decide
  archiveName_flat : archiveName.contains 0x2f = false := by decide

namespace Config

instance : Inhabited Config := ⟨{}⟩

/-- Checks the settings in the order of their fields and reports the first that is out of
range. -/
def ofSettings (s : Settings) : Except ConfigError Config :=
  if hDepth : s.maxStackDepth ≤ 0 then .error (.stackDepth s.maxStackDepth)
  else if hHeader : s.maxHeaderSize ≤ 0 then .error (.headerSize s.maxHeaderSize)
  else if s.storageAlignment < 0 then .error (.alignment s.storageAlignment)
  else if hBatch : s.batchSize ≤ 0 then .error (.batchSize s.batchSize)
  else if hName : s.archiveName.isEmpty = true ∨ s.archiveName.contains 0x2f = true then
    .error (.archiveName s.archiveName)
  else
    .ok {
      maxStackDepth := s.maxStackDepth.toNat
      maxMemoSize := s.maxMemoSize
      maxHeaderSize := s.maxHeaderSize.toNat
      archiveName := s.archiveName
      writeByteOrder := s.writeByteOrder
      storageAlignment := s.storageAlignment.toNat
      batchSize := s.batchSize.toNat
      maxStackDepth_pos := by omega
      maxHeaderSize_pos := by omega
      batchSize_pos := by omega
      archiveName_ne := by simp_all
      archiveName_flat := by simp_all }

end Config

end Checkpoint
