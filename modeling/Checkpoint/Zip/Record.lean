import Checkpoint.Zip.Checksum
import Checkpoint.Text.Utf8
import Checkpoint.Text.CodePage437
/-!
The records of a zip archive of stored members: local header, central directory entry and end
record.  Each is a sequence of little-endian fields followed by text of variable length.
-/

namespace Checkpoint.Zip

/-- Fields as pairs of a width in bytes and a value. -/
def fields (values : List (Nat × Nat)) : Bytes :=
  values.flatMap fun (width, value) => Bytes.littleEndian width value

/-- The field of `width` bytes at `offset`; bytes past the end do not count. -/
def fieldAt (bytes : Bytes) (offset width : Nat) : Nat :=
  Bytes.fromLittleEndian ((bytes.drop offset).take width)

def localSignature : Nat := 0x04034b50
def centralSignature : Nat := 0x02014b50
def endSignature : Nat := 0x06054b50
def descriptorSignature : Nat := 0x08074b50
def longEndSignature : Nat := 0x06064b50
def locatorSignature : Nat := 0x07064b50

def localHeaderSize : Nat := 30
def centralEntrySize : Nat := 46
def endRecordSize : Nat := 22
def longEndRecordSize : Nat := 56
def locatorSize : Nat := 20

/-- The flag of a member whose sizes follow its content. -/
def descriptorFlag : Nat := 0x0008

/-- The flag of a member whose name is UTF-8. -/
def utf8Flag : Nat := 0x0800

def hasFlag (flags flag : Nat) : Bool := flags &&& flag != 0

/-- The version of the format that all written members need: stored content. -/
def storedVersion : Nat := 20

/-- Midnight of the first day of 1980, as two packed fields. -/
def epochTime : Nat := 0
def epochDate : Nat := 0x0021

/-- Read and write permission for the owner. -/
def fileAttributes : Nat := 0x01800000

/-- A member as it is written. -/
structure Member where
  name : Text
  extra : Bytes
  crc : Nat
  size : Nat
  headerOffset : Nat
  /-- Whether sizes and checksum follow the content. -/
  described : Bool

namespace Member

/-- The name up to its first NUL. -/
def storedName (m : Member) : Text := ⟨m.name.points.takeWhile (· ≠ 0)⟩

def nameBytes (m : Member) : Bytes := m.storedName.utf8

def flags (m : Member) : Nat :=
  (if m.storedName.isAscii then 0 else utf8Flag) + (if m.described then descriptorFlag else 0)

/-- The header with the given checksum, stored size and size; a descriptor replaces them. -/
def headerWith (m : Member) (crc stored size : Nat) : Bytes :=
  fields [
    (4, localSignature), (2, storedVersion), (2, m.flags), (2, 0), (2, epochTime), (2, epochDate),
    (4, if m.described then 0 else crc), (4, if m.described then 0 else stored),
    (4, if m.described then 0 else size), (2, m.nameBytes.length), (2, m.extra.length)] ++
  m.nameBytes ++ m.extra

/-- The header before the content is written. -/
def pendingHeader (m : Member) : Bytes := m.headerWith 0 0 m.size

def localHeader (m : Member) : Bytes := m.headerWith m.crc m.size m.size

def descriptor (m : Member) : Bytes :=
  fields [(4, descriptorSignature), (4, m.crc), (4, m.size), (4, m.size)]

/-- The fixed part of the central directory entry; system 3 made it. -/
def centralFields (m : Member) : Bytes :=
  fields [
    (4, centralSignature), (1, storedVersion), (1, 3), (2, storedVersion), (2, m.flags), (2, 0),
    (2, epochTime), (2, epochDate), (4, m.crc), (4, m.size), (4, m.size),
    (2, m.nameBytes.length), (2, m.extra.length), (2, 0), (2, 0), (2, 0), (4, fileAttributes),
    (4, m.headerOffset)]

def centralEntry (m : Member) : Bytes := m.centralFields ++ m.nameBytes ++ m.extra

end Member

def endRecord (count size offset : Nat) : Bytes :=
  fields [
    (4, endSignature), (2, 0), (2, 0), (2, count), (2, count), (4, size), (4, offset), (2, 0)]

@[simp] theorem length_fields_nil : (fields []).length = 0 := rfl

@[simp] theorem length_fields_cons (width n : Nat) (rest : List (Nat × Nat)) :
    (fields ((width, n) :: rest)).length = width + (fields rest).length := by
  simp [fields]

@[simp] theorem Member.length_headerWith (m : Member) (crc stored size : Nat) :
    (m.headerWith crc stored size).length =
      localHeaderSize + m.nameBytes.length + m.extra.length := by
  simp [Member.headerWith, localHeaderSize, Nat.add_assoc]

@[simp] theorem Member.length_centralEntry (m : Member) :
    m.centralEntry.length = centralEntrySize + m.nameBytes.length + m.extra.length := by
  simp [Member.centralEntry, Member.centralFields, centralEntrySize, Nat.add_assoc]

@[simp] theorem length_endRecord (count size offset : Nat) :
    (endRecord count size offset).length = endRecordSize := by
  simp [endRecord, endRecordSize]

end Checkpoint.Zip
