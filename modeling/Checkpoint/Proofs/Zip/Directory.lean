import Checkpoint.Proofs.Bytes
import Checkpoint.Proofs.Zip.Writing
import Checkpoint.Zip.Reader
import Mathlib.Data.List.TakeWhile

/-! The directory of an archive is read as it was written: each field where it stands, each entry in
turn. -/

namespace Checkpoint

theorem Bytes.take_littleEndian {n width : Nat} (h : n ≤ width) (value : Nat) :
    (littleEndian width value).take n = littleEndian n value := by
  induction width generalizing n value with
  | zero =>
    obtain rfl := Nat.le_zero.1 h
    rfl
  | succ width ih =>
    cases n with
    | zero => rfl
    | succ n => rw [littleEndian, List.take_succ_cons, ih (by omega), littleEndian]

namespace Zip

/-- The width and the value of the field at an offset. -/
def fieldStarting? : List (Nat × Nat) → Nat → Option (Nat × Nat)
  | [], _ => none
  | (width, value) :: rest, offset =>
    if offset = 0 then some (width, value)
    else if offset < width then none
    else fieldStarting? rest (offset - width)

/-- A field, or the low bytes of it, is read where it has been written. -/
theorem fieldAt_fields {values : List (Nat × Nat)} {offset width value n : Nat} {rest : Bytes}
    (h : fieldStarting? values offset = some (width, value)) (hn : n ≤ width) :
    fieldAt (fields values ++ rest) offset n = value % 256 ^ n := by
  induction values generalizing offset with
  | nil => cases h
  | cons field values ih =>
    obtain ⟨w, v⟩ := field
    have split : fields ((w, v) :: values) ++ rest =
        Bytes.littleEndian w v ++ (fields values ++ rest) := by
      simp [fields]
    rw [fieldStarting?] at h
    split at h
    · next h0 =>
      cases h
      subst h0
      rw [fieldAt, split, List.drop_zero, List.take_append_of_le_length (by simpa using hn),
        Bytes.take_littleEndian hn]
      exact Bytes.fromLittleEndian_littleEndian n value
    · split at h
      · cases h
      · next h0 hw =>
        rw [← ih h, fieldAt, fieldAt, split, List.drop_append, Bytes.length_littleEndian]
        have past : (Bytes.littleEndian w v).drop offset = [] :=
          List.drop_eq_nil_of_le (by simpa using hw)
        rw [past, List.nil_append]

namespace Member

/-- A member whose header can be written, and tells sizes and checksum. -/
structure Sound (m : Member) : Prop where
  plain : m.described = false
  strict : m.storedName.IsStrict
  name : m.nameBytes.length < 256 ^ 2
  extraLength : m.extra.length < 256 ^ 2
  extra : extraFits m.extra = true
  crc : m.crc < 256 ^ 4

/-- Whether all that is said of a member fits its fields. -/
structure Fits (m : Member) : Prop extends Sound m where
  size : m.size < 256 ^ 4
  headerOffset : m.headerOffset < 256 ^ 4

/-- How a member is listed. -/
def entry (m : Member) : Entry where
  name := m.storedName
  fullName := m.storedName
  flags := m.flags
  method := 0
  crc := m.crc
  storedSize := m.size
  size := m.size
  headerOffset := m.headerOffset

variable {m : Member} {rest : Bytes}

theorem flags_lt (m : Member) : m.flags < 256 ^ 2 := by
  unfold flags utf8Flag descriptorFlag
  split <;> split <;> decide

theorem decodeName_nameBytes (h : m.storedName.IsStrict) :
    decodeName m.flags m.nameBytes = .ok m.storedName := by
  have flag : hasFlag m.flags utf8Flag = !m.storedName.isAscii := by
    unfold flags
    cases m.storedName.isAscii <;> cases m.described <;> decide
  unfold decodeName
  rw [flag]
  cases ascii : m.storedName.isAscii with
  | true =>
    simp only [Bool.not_true, Bool.false_eq_true, if_false]
    exact congrArg _ (Text.ofCodePage437_utf8 ascii)
  | false =>
    simp only [Bool.not_false, if_true, nameBytes, Text.ofStrictUtf8?_utf8 h]

theorem memberName_storedName (m : Member) : Entry.memberName m.storedName = m.storedName :=
  congrArg Text.mk List.takeWhile_idem

theorem centralEntry_append (m : Member) (rest : Bytes) :
    m.centralEntry ++ rest = m.centralFields ++ (m.nameBytes ++ (m.extra ++ rest)) := by
  simp [centralEntry]

theorem length_centralFields (m : Member) : m.centralFields.length = centralEntrySize := rfl

theorem fieldAt_centralEntry {offset width value n : Nat} (rest : Bytes)
    (h : fieldStarting? [
      (4, centralSignature), (1, storedVersion), (1, 3), (2, storedVersion), (2, m.flags), (2, 0),
      (2, epochTime), (2, epochDate), (4, m.crc), (4, m.size), (4, m.size),
      (2, m.nameBytes.length), (2, m.extra.length), (2, 0), (2, 0), (2, 0), (4, fileAttributes),
      (4, m.headerOffset)] offset = some (width, value)) (hn : n ≤ width)
    (small : value < 256 ^ n) : fieldAt (m.centralEntry ++ rest) offset n = value := by
  rw [centralEntry_append, centralFields, fieldAt_fields h hn, Nat.mod_eq_of_lt small]

end Member

theorem parseEntries_centralEntry {m : Member} (h : m.Fits) (left : Nat) (rest : Bytes) :
    parseEntries 0 (m.centralEntry.length + left) (m.centralEntry ++ rest) =
      (parseEntries 0 left rest).map (m.entry :: ·) := by
  have field {offset width value n : Nat} :=
    @Member.fieldAt_centralEntry m offset width value n rest
  have long : ¬ (m.centralEntry ++ rest).length < centralEntrySize := by
    simp [Nat.add_assoc]
  have signature : fieldAt (m.centralEntry ++ rest) 0 4 = centralSignature :=
    field rfl (by decide) (by decide)
  have version : fieldAt (m.centralEntry ++ rest) 6 1 = storedVersion :=
    field rfl (by decide) (by decide)
  have flags : fieldAt (m.centralEntry ++ rest) 8 2 = m.flags := field rfl le_rfl m.flags_lt
  have method : fieldAt (m.centralEntry ++ rest) 10 2 = 0 := field rfl le_rfl (by decide)
  have crc : fieldAt (m.centralEntry ++ rest) 16 4 = m.crc := field rfl le_rfl h.crc
  have stored : fieldAt (m.centralEntry ++ rest) 20 4 = m.size := field rfl le_rfl h.size
  have size : fieldAt (m.centralEntry ++ rest) 24 4 = m.size := field rfl le_rfl h.size
  have name : fieldAt (m.centralEntry ++ rest) 28 2 = m.nameBytes.length := field rfl le_rfl h.name
  have extra : fieldAt (m.centralEntry ++ rest) 30 2 = m.extra.length :=
    field rfl le_rfl h.extraLength
  have comment : fieldAt (m.centralEntry ++ rest) 32 2 = 0 := field rfl le_rfl (by decide)
  have offset : fieldAt (m.centralEntry ++ rest) 42 4 = m.headerOffset :=
    field rfl le_rfl h.headerOffset
  have behind : (m.centralEntry ++ rest).drop centralEntrySize =
      m.nameBytes ++ (m.extra ++ rest) := by
    rw [m.centralEntry_append, ← m.length_centralFields, List.drop_left]
  have covered : m.centralEntry.length + left - (centralEntrySize + (m.nameBytes.length +
      m.extra.length)) = left := by
    rw [Member.length_centralEntry]
    omega
  have past : (m.nameBytes ++ (m.extra ++ rest)).drop (m.nameBytes.length + m.extra.length) =
      rest := by
    rw [← List.drop_drop, List.drop_left, List.drop_left]
  have some : ¬ m.centralEntry.length + left = 0 := by
    simp [centralEntrySize]
  have known : ¬ newestVersion < storedVersion := by
    decide
  have entry : ¬ ((m.centralEntry ++ rest).length < centralEntrySize ∨
      fieldAt (m.centralEntry ++ rest) 0 4 ≠ centralSignature) :=
    not_or.2 ⟨long, not_not.2 signature⟩
  rw [parseEntries, if_neg some, if_neg entry]
  simp only [name, extra, comment, flags, method, crc, stored, size, offset, version, behind,
    List.take_left, List.drop_left, Member.decodeName_nameBytes h.strict, if_neg known, h.extra,
    Nat.add_zero, covered, if_true]
  rw [past]
  have listed : m.entry = {
      name := Entry.memberName m.storedName
      fullName := m.storedName
      flags := m.flags
      method := 0
      crc := m.crc
      storedSize := m.size
      size := m.size
      headerOffset := (m.headerOffset : Int) + 0 } := by
    rw [m.memberName_storedName, Int.add_zero, Member.entry]
  rw [listed]
  cases parseEntries 0 left rest <;> rfl

theorem parseEntries_directory {members : List Member} (h : ∀ m ∈ members, m.Fits) :
    parseEntries 0 (Writer.directory members).length (Writer.directory members) =
      .ok (members.map Member.entry) := by
  induction members with
  | nil =>
    rw [parseEntries]
    rfl
  | cons m members ih =>
    obtain ⟨first, others⟩ := List.forall_mem_cons.1 h
    have split : Writer.directory (m :: members) = m.centralEntry ++ Writer.directory members := rfl
    rw [split, List.length_append, parseEntries_centralEntry first, ih others]
    rfl

end Zip

end Checkpoint
