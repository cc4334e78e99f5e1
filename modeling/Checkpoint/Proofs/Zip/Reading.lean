import Checkpoint.Proofs.Stream
import Checkpoint.Proofs.Zip.Directory

/-! Finished archives are read back: the directory from the end of the stream, and the content of a
member from behind its header. -/

namespace Checkpoint

namespace Stream

/-- A stream without faults that has the given content, in which every place fits a field. -/
structure Has (s : Stream) (content : Bytes) : Prop where
  healthy : s.Healthy
  holds : s.content = content
  short : content.length < 256 ^ 4

variable {s : Stream} {content : Bytes} {E : Error → Stream → Prop}

theorem Has.after (h : s.Has content) (calls : List StreamMethod) (position : Nat) :
    (s.after calls s.content position).Has content :=
  ⟨h.healthy.after _ _ _, h.holds, h.short⟩

theorem Has.readFault? (h : s.Has content) {size : Option Nat}
    (hs : ∀ n, size = some n → n ≤ content.length) : size.bind s.readFault? = none := by
  cases size with
  | none => rfl
  | some n =>
    have small := Nat.lt_of_le_of_lt (hs n rfl) h.short
    have within (limit : Nat) (hl : 256 ^ 4 ≤ limit) : decide (limit ≤ n) = false :=
      decide_eq_false (by omega)
    change s.readFault? n = none
    simp [Stream.readFault?, within sizeLimit (by decide), within fileSizeLimit (by decide),
      within fileReadLimit (by decide)]

theorem ensures_seek_has {position : Nat} {Q : Unit → Stream → Prop} (h : s.Has content)
    (hp : position ≤ content.length) (hq : ∀ t, t.Has content → t.position = position → Q () t) :
    (seek position).Ensures s Q E := by
  have small : position < sizeLimit := by
    have := h.short
    unfold sizeLimit
    omega
  unfold seek
  rw [Effect.ensures_bind]
  apply ensures_call h.healthy.steady (h.healthy.offers _)
  have natural : ¬ (position : Int) < 0 := by
    omega
  have within : ¬ (sizeLimit : Int) ≤ position := by
    omega
  simp only [if_neg natural, if_neg within]
  rw [Effect.ensures_modify]
  exact hq _ (h.after _ position) rfl

theorem ensures_read_has {size : Option Nat} {Q : Bytes → Stream → Prop} (h : s.Has content)
    (hs : ∀ n, size = some n → n ≤ content.length)
    (hq : ∀ t, t.Has content → t.position = s.position + (s.ahead size).length →
      Q (s.ahead size) t) : (read size).Ensures s Q E := by
  apply ensures_read h.healthy.steady (h.readFault? hs)
  intro calls
  exact hq _ (h.after _ _) rfl

theorem ensures_seekFromEnd_has {back : Nat} {Q : Nat → Stream → Prop} (h : s.Has content)
    (hb : back ≤ content.length)
    (hq : ∀ t, t.Has content → t.position = content.length - back →
      Q (content.length - back) t) : (seekFromEnd back).Ensures s Q E := by
  apply ensures_seekFromEnd h.healthy
  · rw [h.holds]
    exact hb
  · intro calls
    have := hq _ (h.after calls (content.length - back)) rfl
    rwa [h.holds] at this ⊢

end Stream

namespace Zip

open Effect

variable {s : Stream} {content : Bytes} {E : Error → Stream → Prop}

theorem ensures_readAt {a b c : Bytes} {position : Int} {size : Nat}
    {Q : Bytes × Nat → Stream → Prop} (h : s.Has content) (split : content = a ++ (b ++ c))
    (hp : position = a.length) (hs : size = b.length)
    (hq : ∀ t, t.Has content → Q (b, a.length + b.length) t) :
    (readAt position size).Ensures s Q E := by
  subst hp hs
  unfold readAt
  rw [ensures_bind]
  have long : a.length + b.length ≤ content.length := by
    rw [split]
    simp
  apply Stream.ensures_seek_has h (by omega)
  intro t ht place
  have ahead : t.ahead (some b.length) = b := by
    simp [Stream.ahead, ht.holds, place, split]
  rw [ensures_bind]
  apply Stream.ensures_read_has ht (by simp; omega)
  intro u hu place'
  rw [ensures_bind]
  apply Stream.ensures_tell hu.healthy
  intro calls
  rw [ensures_pure, ahead, place', ahead, place]
  exact hq _ (hu.after calls _)

namespace Member

/-- The fixed part of a complete local header. -/
def localFields (m : Member) : Bytes :=
  fields [
    (4, localSignature), (2, storedVersion), (2, m.flags), (2, 0), (2, epochTime), (2, epochDate),
    (4, m.crc), (4, m.size), (4, m.size), (2, m.nameBytes.length), (2, m.extra.length)]

theorem length_localFields (m : Member) : m.localFields.length = localHeaderSize := rfl

theorem localHeader_eq {m : Member} (plain : m.described = false) :
    m.localHeader = m.localFields ++ (m.nameBytes ++ m.extra) := by
  simp [localHeader, headerWith, localFields, plain]

/-- The data of a member starts behind the three parts of its header. -/
theorem length_dataStart {m : Member} (plain : m.described = false) (a : Bytes) :
    (a ++ m.localHeader).length =
      (a ++ m.localFields).length + m.nameBytes.length + m.extra.length := by
  simp [localHeader_eq plain, Nat.add_assoc]

/-- Where a member ends, its content included. -/
def stop (m : Member) : Nat := m.headerOffset + m.localHeader.length + m.size

theorem fieldAt_localFields {m : Member} {offset width value : Nat}
    (h : fieldStarting? [
      (4, localSignature), (2, storedVersion), (2, m.flags), (2, 0), (2, epochTime), (2, epochDate),
      (4, m.crc), (4, m.size), (4, m.size), (2, m.nameBytes.length),
      (2, m.extra.length)] offset = some (width, value)) (small : value < 256 ^ width) :
    fieldAt m.localFields offset width = value := by
  rw [localFields, ← List.append_nil (fields _), fieldAt_fields h le_rfl, Nat.mod_eq_of_lt small]

theorem hasFlag_flags {m : Member} (plain : m.described = false) {flag : Nat}
    (h : hasFlag 0 flag = false) (h' : hasFlag utf8Flag flag = false) :
    hasFlag m.flags flag = false := by
  unfold flags
  rw [plain]
  cases m.storedName.isAscii <;> assumption

end Member

variable {m : Member} {a data c : Bytes}

theorem ensures_openEntry {limit : Int} {Q : Opened → Stream → Prop} (h : s.Has content)
    (fits : m.Fits) (split : content = a ++ (m.localHeader ++ (data ++ c)))
    (ho : m.headerOffset = a.length) (hs : m.size = data.length) (hl : m.stop ≤ limit)
    (hq : ∀ t, t.Has content →
      Q { entry := m.entry, dataStart := (a ++ m.localHeader).length } t) :
    (openEntry m.entry limit).Ensures s Q E := by
  have signature : fieldAt m.localFields 0 4 = localSignature :=
    Member.fieldAt_localFields rfl (by decide)
  have flags : fieldAt m.localFields 6 2 = m.flags := Member.fieldAt_localFields rfl m.flags_lt
  have name : fieldAt m.localFields 26 2 = m.nameBytes.length :=
    Member.fieldAt_localFields rfl fits.name
  have extra : fieldAt m.localFields 28 2 = m.extra.length :=
    Member.fieldAt_localFields rfl fits.extraLength
  rw [Member.localHeader_eq fits.plain] at split
  unfold openEntry
  rw [ensures_bind]
  apply ensures_readAt (b := m.localFields) h (by simpa using split) (by simp [Member.entry, ho])
    m.length_localFields.symm
  intro t ht
  dsimp only
  have unset (flag : Nat) (h : hasFlag 0 flag = false) (h' : hasFlag utf8Flag flag = false) :
      hasFlag m.entry.flags flag = false := Member.hasFlag_flags fits.plain h h'
  have method : m.entry.method = 0 := rfl
  simp only [m.length_localFields, signature, flags, name, extra, unset 0x20 rfl rfl,
    unset 0x40 rfl rfl, unset 1 rfl rfl, method, ne_eq, not_true, if_false, Bool.or_self,
    Bool.false_eq_true, ensures_bind]
  apply ensures_readAt (a := a ++ m.localFields) (b := m.nameBytes) ht (by simpa using split)
    (by simp [m.length_localFields]) rfl
  intro u hu
  have decoded : Effect.ofExcept (decodeName m.flags m.nameBytes) =
      (pure m.storedName : Action Text) := by
    rw [Member.decodeName_nameBytes fits.strict]
    rfl
  have named : m.entry.fullName = m.storedName := rfl
  have within : ¬ limit < ((a ++ m.localHeader).length : Int) + m.entry.storedSize := by
    rw [List.length_append]
    unfold Member.stop at hl
    change ¬ limit < ((a.length + m.localHeader.length : Nat) : Int) + m.size
    omega
  have place := Member.length_dataStart fits.plain a
  -- the data starts at one place, whether there is an extra field to be skipped or not
  have opened {v : Stream} (hv : v.Has content) : Effect.Ensures (do
      let _ ← Stream.seekable
      return { entry := m.entry, dataStart := (a ++ m.localHeader).length : Opened }) v Q E := by
    rw [ensures_bind]
    apply Stream.ensures_seekable hv.healthy
    intro calls
    exact (ensures_pure _).2 (hq _ (hv.after _ _))
  simp only [decoded, named, not_true, if_false, pure_bind]
  split
  · next empty =>
    rw [empty, Nat.add_zero] at place
    rw [← place, if_neg within]
    exact opened hu
  · rw [ensures_bind]
    apply ensures_readAt (a := a ++ m.localFields ++ m.nameBytes) (b := m.extra) hu
      (by simpa using split) (by simp [Int.add_assoc]) rfl
    intro v hv
    have named : (a ++ m.localFields ++ m.nameBytes).length =
        (a ++ m.localFields).length + m.nameBytes.length := List.length_append
    rw [named, ← place, if_neg within]
    exact opened hv

/-- What a member holds, and the checksum of that. -/
structure Member.Covers (m : Member) (data : Bytes) : Prop where
  size : m.size = data.length
  crc : m.crc = (crc32 data).toNat

theorem ensures_fetch {Q : Opened → Stream → Prop} (h : s.Has content)
    (split : content = a ++ (data ++ c)) (covers : m.Covers data) {need : Nat}
    (hn : data.length < need)
    (hq : ∀ t, t.Has content →
      Q { entry := m.entry, dataStart := a.length, fetched := data, complete := true } t) :
    (Opened.fetch { entry := m.entry, dataStart := a.length } need).Ensures s Q E := by
  have size : m.entry.storedSize = data.length := covers.size
  have size' : m.entry.size = data.length := covers.size
  have crc : m.entry.crc = (crc32 data).toNat := covers.crc
  have all : min (max need fetchSize) data.length = data.length := by
    omega
  have some : (need == 0) = false := by
    simp
    omega
  unfold Opened.fetch
  simp only [size, size', crc, some, List.length_nil, Nat.sub_zero, all, Bool.or_self,
    Bool.false_eq_true, if_false, List.nil_append]
  split
  · next empty =>
    obtain rfl := List.length_eq_zero_iff.1 empty
    simpa using hq s h
  · rw [ensures_bind]
    apply ensures_readAt (b := data) h split (by simp) rfl
    intro t ht
    simpa using hq t ht

theorem ensures_readRange {Q : Bytes → Stream → Prop} (h : s.Has content)
    (split : content = a ++ (data ++ c)) (covers : m.Covers data)
    (hq : ∀ t, t.Has content → Q data t) :
    (Opened.readRange { entry := m.entry, dataStart := a.length } 0 none).Ensures s Q E := by
  have size : m.entry.storedSize = data.length := covers.size
  have start : Opened.fetch { entry := m.entry, dataStart := a.length } 0 =
      pure { entry := m.entry, dataStart := a.length } := rfl
  unfold Opened.readRange
  simp only [Int.toNat_zero, Nat.zero_min, start, pure_bind, Opened.readAll, size, bind_assoc,
    List.drop_zero, ensures_bind]
  apply ensures_fetch h split covers (Nat.lt_succ_self _)
  exact fun t ht => (ensures_pure _).2 (hq t ht)

section Directories

/-- Whether the bytes in front of the end record would be taken for a locator. -/
def HasLocator (content : Bytes) : Prop :=
  fieldAt content (content.length - (endRecordSize + locatorSize)) 4 = locatorSignature

theorem fieldAt_take {bytes : Bytes} {n : Nat} (offset : Nat) (h : 4 ≤ n) :
    fieldAt ((bytes.drop offset).take n) 0 4 = fieldAt bytes offset 4 := by
  rw [fieldAt, List.drop_zero, List.take_take, Nat.min_eq_left h, fieldAt]

/-- The end record that stands last counts. -/
theorem ensures_preferLong {short : EndRecord} {Q : Option EndRecord → Stream → Prop}
    (h : s.Has content) (plain : ¬ HasLocator content)
    (long : endRecordSize + locatorSize ≤ content.length)
    (hq : ∀ t, t.Has content → Q (some short) t) :
    (preferLong short endRecordSize).Ensures s Q E := by
  unfold preferLong
  rw [ensures_bind, ensures_tryCatch, ensures_bind]
  apply Stream.ensures_seekFromEnd_has h long
  intro t ht place
  simp only [ensures_pure, if_true, ensures_bind]
  apply Stream.ensures_read_has ht
  · rintro _ ⟨⟩
    exact Nat.le_trans (Nat.le_add_left _ _) long
  intro u hu _
  have other : fieldAt (t.ahead (some locatorSize)) 0 4 ≠ locatorSignature := by
    rw [Stream.ahead, ht.holds, place, fieldAt_take _ (by decide)]
    exact plain
  rw [if_pos (.inr other)]
  exact (ensures_pure _).2 (hq u hu)

theorem fieldAt_endRecord {count size start offset width value : Nat}
    (h : fieldStarting? [
      (4, endSignature), (2, 0), (2, 0), (2, count), (2, count), (4, size), (4, start),
      (2, 0)] offset = some (width, value)) (small : value < 256 ^ width) :
    fieldAt (endRecord count size start) offset width = value := by
  rw [endRecord, ← List.append_nil (fields _), fieldAt_fields h le_rfl, Nat.mod_eq_of_lt small]

theorem ensures_findEndRecord {before : Bytes} {count size start : Nat}
    {Q : Option EndRecord → Stream → Prop} (h : s.Has content)
    (split : content = before ++ endRecord count size start) (plain : ¬ HasLocator content)
    (long : locatorSize ≤ before.length) (hs : size < 256 ^ 4) (ho : start < 256 ^ 4)
    (hq : ∀ t, t.Has content → Q (some { size, offset := start, location := before.length }) t) :
    findEndRecord.Ensures s Q E := by
  have length : content.length = before.length + endRecordSize := by
    rw [split, List.length_append, length_endRecord]
  have signature : fieldAt (endRecord count size start) 0 4 = endSignature :=
    fieldAt_endRecord rfl (by decide)
  have comment : fieldAt (endRecord count size start) 20 2 = 0 := fieldAt_endRecord rfl (by decide)
  have short : EndRecord.ofShort (endRecord count size start) before.length =
      { size, offset := start, location := before.length } := by
    have sized : fieldAt (endRecord count size start) 12 4 = size := fieldAt_endRecord rfl hs
    have placed : fieldAt (endRecord count size start) 16 4 = start := fieldAt_endRecord rfl ho
    rw [EndRecord.ofShort, sized, placed]
  unfold findEndRecord
  rw [ensures_bind]
  apply Stream.ensures_seekFromEnd_has h (Nat.zero_le _)
  intro t ht place
  rw [ensures_bind]
  apply Stream.ensures_tell ht.healthy
  intro calls
  rw [ensures_bind]
  apply Stream.ensures_seekFromEnd_has (ht.after calls _) (by omega)
  intro u hu place'
  have tail : u.ahead none = endRecord count size start := by
    rw [Stream.ahead, hu.holds, place', length, Nat.add_sub_cancel, split, List.drop_left]
  rw [ensures_bind]
  apply Stream.ensures_read_has hu (by rintro _ ⟨⟩)
  intro v hv _
  rw [tail, if_pos ⟨length_endRecord .., signature, comment⟩, place, length]
  simp only [Nat.sub_zero, Nat.add_sub_cancel, short]
  exact ensures_preferLong hv plain (by omega) hq

/-- The directory of a finished archive is read as it was written. -/
theorem ensures_readDirectory {bytes : Bytes} {members : List Member}
    {Q : Directory → Stream → Prop} (h : s.Has content)
    (split : content = Writer.finished bytes members) (plain : ¬ HasLocator content)
    (filled : members ≠ []) (fits : ∀ m ∈ members, m.Fits)
    (hq : ∀ t, t.Has content →
      Q { entries := members.map Member.entry, start := bytes.length } t) :
    readDirectory.Ensures s Q E := by
  have length : content.length =
      bytes.length + (Writer.directory members).length + endRecordSize := by
    simp [split, Writer.finished, Nat.add_assoc]
  have small := h.short
  -- With a member in the directory there is always room for a locator, so one is looked for.
  have long : locatorSize ≤ (bytes ++ Writer.directory members).length := by
    obtain ⟨m, others, rfl⟩ := List.exists_cons_of_ne_nil filled
    simp [Writer.directory, centralEntrySize, locatorSize]
    omega
  unfold readDirectory
  rw [ensures_bind, ensures_tryCatch]
  apply ensures_findEndRecord h split plain long (by omega) (by omega)
  intro t ht
  have enough : ¬ (bytes ++ Writer.directory members).length < (Writer.directory members).length := by
    simp
  have start : (bytes ++ Writer.directory members).length - (Writer.directory members).length =
      bytes.length := by
    simp
  simp only [if_neg enough, start, Int.sub_self, ensures_bind]
  apply Stream.ensures_seek_has ht (by omega)
  intro u hu place
  have ahead : u.ahead (some (Writer.directory members).length) = Writer.directory members := by
    simp [Stream.ahead, hu.holds, place, split, Writer.finished]
  apply Stream.ensures_read_has hu (by rintro _ ⟨⟩; omega)
  intro v hv _
  rw [ahead, parseEntries_directory fits, ensures_ofExcept_ok, ensures_pure]
  exact hq v hv

end Directories

end Zip

end Checkpoint
