import Checkpoint.Archive.Reader
import Checkpoint.Proofs.Archive.Writing
import Checkpoint.Proofs.Table

/-! Archives as they are read: a finished archive has the records that were written, each with its
content, and nothing else. -/

namespace Checkpoint.Archive

open Effect

section Members

variable {d : Zip.Directory}

/-- The members of a directory, each with its name and where its content has to end. -/
def listed (d : Zip.Directory) : List (Text × Zip.Entry × Int) :=
  ((List.range d.entries.length).zip d.entries).map fun p => (p.2.name, p.2, d.limit p.1 p.2)

theorem map_fst_listed (d : Zip.Directory) :
    (listed d).map Prod.fst = d.entries.map Zip.Entry.name := by
  rw [listed, List.map_map]
  change List.map (Zip.Entry.name ∘ Prod.snd) _ = _
  rw [← List.map_map, List.map_snd_zip (by simp)]

theorem entries_membersOf (distinct : (d.entries.map Zip.Entry.name).Nodup) :
    (membersOf d).entries = listed d := by
  have keys : ((listed d).map Prod.fst).Nodup := by rwa [map_fst_listed]
  exact Table.entries_ofList keys

theorem keys_membersOf (distinct : (d.entries.map Zip.Entry.name).Nodup) :
    (membersOf d).keys = d.entries.map Zip.Entry.name := by
  rw [Table.keys, entries_membersOf distinct, map_fst_listed]

theorem get?_membersOf (distinct : (d.entries.map Zip.Entry.name).Nodup)
    {before after : List Zip.Entry} {e : Zip.Entry} (split : d.entries = before ++ e :: after) :
    (membersOf d).get? e.name = some (e, d.limit before.length e) := by
  apply Table.get?_of_mem
  · rw [keys_membersOf distinct]
    exact distinct
  · rw [entries_membersOf distinct, listed, List.mem_map]
    refine ⟨(before.length, e), ?_, rfl⟩
    rw [List.mem_iff_getElem]
    refine ⟨before.length, by simp [split], ?_⟩
    simp [split]

end Members

namespace Reader

/-- A reader of an archive of records. -/
structure Reads (r : Reader) (root : Text) (records : List (Text × Bytes)) (content : Bytes) :
    Prop where
  root_eq : r.root = root
  distinct : (records.map Prod.fst).Nodup
  short : content.length < 256 ^ 4
  archive : ∃ bytes items, content = Zip.Writer.finished bytes (items.map Prod.fst) ∧
    Spans root records bytes items ∧ r.members = membersOf (Zip.directoryOf bytes items)

/-- What a record is found as: an entry of that size, from which its content can be read. -/
structure Finds (content : Bytes) (found : Zip.Entry × Int) (data : Bytes) : Prop where
  size : found.1.size = data.length
  reads : ∀ (s : Stream) (Q : Bytes → Stream → Prop) (E : Error → Stream → Prop),
    s.Has content → (∀ t, t.Has content → Q data t) → Ensures (do
      let opened ← Zip.openEntry found.1 found.2
      opened.readRange 0 none) s Q E

end Reader

theorem short_of_finished {content bytes : Bytes} {members : List Zip.Member}
    (split : content = Zip.Writer.finished bytes members) (short : content.length < 256 ^ 4) :
    bytes.length < 256 ^ 4 := by
  rw [split, Zip.Writer.finished, List.length_append, List.length_append] at short
  omega

section Records

variable {root : Text} {records : List (Text × Bytes)} {bytes : Bytes}
  {items : List (Zip.Member × Bytes)}

theorem Spans.names (h : Spans root records bytes items) :
    (Zip.directoryOf bytes items).entries.map Zip.Entry.name =
      records.map fun record => root ++ record.1 := by
  have := congrArg (List.map Prod.fst) h.named
  simpa [Zip.directoryOf, Zip.Member.entry, Function.comp_def] using this

theorem Spans.distinct (h : Spans root records bytes items)
    (distinct : (records.map Prod.fst).Nodup) :
    ((Zip.directoryOf bytes items).entries.map Zip.Entry.name).Nodup := by
  have apart : ((records.map Prod.fst).map (root ++ ·)).Nodup :=
    distinct.map fun _ _ => Text.append_left_cancel
  rw [h.names]
  rwa [List.map_map] at apart

end Records

namespace Reader

variable {r : Reader} {root : Text} {records : List (Text × Bytes)} {content : Bytes}

theorem Reads.keys (h : r.Reads root records content) :
    r.members.keys = records.map fun record => root ++ record.1 := by
  obtain ⟨bytes, items, -, spans, members⟩ := h.archive
  rw [members, keys_membersOf (spans.distinct h.distinct), spans.names]

theorem Reads.hasRecord (h : r.Reads root records content) (name : Text) :
    r.hasRecord name = true ↔ name ∈ records.map Prod.fst := by
  unfold Reader.hasRecord
  rw [Table.contains_iff_mem_keys, h.keys, h.root_eq, List.mem_map, List.mem_map]
  constructor
  · rintro ⟨record, hr, same⟩
    exact ⟨record, hr, Text.append_left_cancel same⟩
  · rintro ⟨record, hr, rfl⟩
    exact ⟨record, hr, rfl⟩

theorem Reads.entry (h : r.Reads root records content) {name : Text} {data : Bytes}
    (hr : (name, data) ∈ records) : ∃ found, r.entry name = .ok found ∧
      Finds content found data := by
  obtain ⟨bytes, items, split, spans, members⟩ := h.archive
  have listed : (root ++ name, data) ∈ items.map fun item => (item.1.storedName, item.2) := by
    rw [spans.named]
    exact List.mem_map_of_mem (f := fun record => (root ++ record.1, record.2)) hr
  obtain ⟨⟨m, held⟩, hm, same⟩ := List.mem_map.1 listed
  obtain ⟨named, rfl⟩ : m.storedName = root ++ name ∧ held = data := Prod.mk.inj same
  obtain ⟨before, after, rfl⟩ := List.append_of_mem hm
  have place : (Zip.directoryOf bytes (before ++ (m, held) :: after)).entries =
      before.map (fun item => item.1.entry) ++ m.entry :: after.map fun item => item.1.entry := by
    simp [Zip.directoryOf]
  have found := get?_membersOf (spans.distinct h.distinct) place
  rw [List.length_map] at found
  have fits := spans.holds.fits (short_of_finished split h.short) hm (spans.sound _ hm)
  have known : r.entry? name = (membersOf (Zip.directoryOf bytes (before ++ (m, held) :: after))).get?
      m.entry.name := by
    rw [Reader.entry?, members, h.root_eq, ← named]
    rfl
  refine ⟨(m.entry, (Zip.directoryOf bytes (before ++ (m, held) :: after)).limit before.length
    m.entry), ?_, (spans.holds.covers _ hm).size, ?_⟩
  · rw [Reader.entry, known, found]
  · intro s Q E hs hq
    exact spans.holds.ensures_content fits hs (split.trans (List.append_assoc ..)) hq

theorem Reads.recordSize (h : r.Reads root records content) {name : Text} {data : Bytes}
    (hr : (name, data) ∈ records) : r.recordSize name = .ok data.length := by
  obtain ⟨found, he, finds⟩ := h.entry hr
  rw [Reader.recordSize, he]
  exact congrArg Except.ok finds.size

theorem Reads.ensures_readRecord (h : r.Reads root records content) {name : Text} {data : Bytes}
    (hr : (name, data) ∈ records) {s : Stream} {Q : Bytes → Stream → Prop}
    {E : Error → Stream → Prop} (hs : s.Has content) (hq : ∀ t, t.Has content → Q data t) :
    (r.readRecord name).Ensures s Q E := by
  obtain ⟨found, he, finds⟩ := h.entry hr
  unfold Reader.readRecord Reader.readRange
  rw [he, ensures_bind, ensures_ofExcept_ok]
  apply ensures_describing
  exact finds.reads s Q _ hs hq

theorem Reads.storageSize (h : r.Reads root records content) {key : Text} {data : Bytes}
    (hr : (storageRecord key, data) ∈ records) : r.storageSize key = .ok data.length := by
  have present := (h.hasRecord (storageRecord key)).2 (List.mem_map_of_mem (f := Prod.fst) hr)
  rw [Reader.storageSize, Reader.requireStorage, if_pos present]
  exact h.recordSize hr

theorem Reads.ensures_readStorage (h : r.Reads root records content) {key : Text} {data : Bytes}
    (hr : (storageRecord key, data) ∈ records) {s : Stream} {Q : Bytes → Stream → Prop}
    {E : Error → Stream → Prop} (hs : s.Has content) (hq : ∀ t, t.Has content → Q data t) :
    (r.readStorage key).Ensures s Q E := by
  have present := (h.hasRecord (storageRecord key)).2 (List.mem_map_of_mem (f := Prod.fst) hr)
  unfold Reader.readStorage
  rw [Reader.requireStorage, if_pos present, ensures_bind, ensures_ofExcept_ok]
  exact h.ensures_readRecord hr hs hq

end Reader

section Roots

theorem eq_of_append_eq {α : Type} {c : α} {a b x y : List α} (ha : c ∉ a) (hx : c ∉ x)
    (h : a ++ c :: x = b ++ c :: y) : x = y := by
  obtain ⟨mid, rfl, hm⟩ | ⟨mid, rfl, hm⟩ := List.append_eq_append_iff.1 h
  · cases mid with
    | nil => exact (List.cons.inj hm).2
    | cons d mid =>
      obtain ⟨rfl, rfl⟩ := List.cons.inj hm
      exact absurd (by simp) hx
  · cases mid with
    | nil => exact (List.cons.inj hm).2.symm
    | cons d mid =>
      obtain ⟨rfl, rfl⟩ := List.cons.inj hm
      exact absurd (by simp) ha

theorem notMem_archiveName (config : Config) :
    (0x2f : CodePoint) ∉ config.archiveName.points := by
  have := config.archiveName_flat
  simpa [Text.contains] using this

theorem points_rootOf (config : Config) (name : Text) :
    (rootOf config ++ name).points = config.archiveName.points ++ 0x2f :: name.points := by
  simp only [rootOf, Text.points_append, List.append_assoc]
  rfl

theorem count_rootOf (config : Config) (name : Text) :
    (rootOf config ++ name).count 0x2f = name.count 0x2f + 1 := by
  rw [Text.count, points_rootOf, List.count_append, List.count_cons_self,
    List.count_eq_zero_of_not_mem (notMem_archiveName config), Nat.zero_add, Text.count]

/-- The object stream is the one record directly under the root that is named so. -/
theorem isObject_iff (config : Config) (name : Text) :
    ((rootOf config ++ name).endsWith ("/" ++ objectRecord) &&
      (rootOf config ++ name).count 0x2f == 1) = true ↔ name = objectRecord := by
  have slash : ("/" ++ objectRecord : Text).points = 0x2f :: objectRecord.points := rfl
  rw [count_rootOf, Bool.and_eq_true, Text.endsWith, List.isSuffixOf_iff_suffix, points_rootOf, slash]
  constructor
  · rintro ⟨⟨before, same⟩, single⟩
    have flat : (0x2f : CodePoint) ∉ name.points := by
      apply List.count_eq_zero.1
      simpa [Text.count] using single
    exact Text.ext_points (eq_of_append_eq (notMem_archiveName config) flat same.symm)
  · rintro rfl
    exact ⟨List.suffix_append _ _, by decide⟩

theorem dropEnd_append (a b : Text) : (a ++ b).dropEnd b.length = a := by
  apply Text.ext_points
  simp [Text.dropEnd, Text.length]

/-- The folder of a member that is named like the object stream of an archive. -/
def folder? (name : Text) : Option Text :=
  if name.endsWith ("/" ++ objectRecord) && name.count 0x2f == 1 then
    some (name.dropEnd objectRecord.length)
  else none

theorem folder?_rootOf (config : Config) (name : Text) :
    folder? (rootOf config ++ name) = if name = objectRecord then some (rootOf config) else none := by
  simp only [folder?, isObject_iff]
  split
  · next same => rw [same, dropEnd_append]
  · rfl

theorem filterMap_single {α β : Type} [DecidableEq α] {names : List α} {x : α} (b : β)
    (distinct : names.Nodup) (h : x ∈ names) :
    names.filterMap (fun name => if name = x then some b else none) = [b] := by
  obtain ⟨before, after, rfl⟩ := List.append_of_mem h
  have other : ∀ name ∈ before ++ after, (if name = x then some b else none) = none := by
    rw [List.nodup_middle, List.nodup_cons] at distinct
    intro name hn
    rw [if_neg]
    rintro rfl
    exact distinct.1 hn
  rw [List.forall_mem_append] at other
  simp [List.filterMap_eq_nil_iff.2 other.1, List.filterMap_eq_nil_iff.2 other.2]

theorem findRoot_eq_ok {members : Table Text (Zip.Entry × Int)} {root : Text} : findRoot members = .ok root ↔
    members.keys.filterMap folder? = [root] ∧ members.contains (root ++ scriptRecord) = false := by
  unfold findRoot
  dsimp only
  split
  · next none =>
    change members.keys.filterMap folder? = [] at none
    simp [none]
  · next single =>
    change members.keys.filterMap folder? = [_] at single
    rw [single]
    split
    · next script =>
      constructor
      · rintro ⟨⟩
      · rintro ⟨⟨⟩, absent⟩
        rw [script] at absent
        cases absent
    · next absent =>
      constructor
      · rintro ⟨⟩
        exact ⟨rfl, Bool.eq_false_of_not_eq_true absent⟩
      · rintro ⟨⟨⟩, -⟩
        rfl
  · next several =>
    constructor
    · rintro ⟨⟩
    · rintro ⟨single, -⟩
      exact absurd single (several root)

/-- The root folder is found by the object stream in it. -/
theorem findRoot_eq {config : Config} {records : List (Text × Bytes)}
    {members : Table Text (Zip.Entry × Int)}
    (keys : members.keys = records.map fun record => rootOf config ++ record.1)
    (distinct : (records.map Prod.fst).Nodup) (object : objectRecord ∈ records.map Prod.fst)
    (plain : scriptRecord ∉ records.map Prod.fst) : findRoot members = .ok (rootOf config) := by
  refine findRoot_eq_ok.2 ⟨?_, ?_⟩
  · -- Only the object stream has one separator and ends in its name, so there is one candidate.
    rw [keys, ← filterMap_single (rootOf config) distinct object, List.filterMap_map, List.filterMap_map]
    exact List.filterMap_congr fun record _ => folder?_rootOf config record.1
  · rw [← Bool.not_eq_true, Table.contains_iff_mem_keys, keys, List.mem_map]
    rintro ⟨record, hr, same⟩
    exact plain (Text.append_left_cancel same ▸ List.mem_map_of_mem hr)

end Roots

/-- Records that make an archive which can be opened, and the byte order that they declare. -/
structure Openable (records : List (Text × Bytes)) (order : ByteOrder) : Prop where
  distinct : (records.map Prod.fst).Nodup
  object : objectRecord ∈ records.map Prod.fst
  plain : scriptRecord ∉ records.map Prod.fst
  version : ∃ record raw version,
    versionRecords.find? (fun name => decide (name ∈ records.map Prod.fst)) = some record ∧
    (record, raw) ∈ records ∧ (Text.ofAscii? raw).bind Decimal.integer? = some version ∧
    oldestVersion ≤ version ∧ version ≤ newestVersion
  order : if byteOrderRecord ∈ records.map Prod.fst then
      ∃ raw, (byteOrderRecord, raw) ∈ records ∧ ByteOrder.ofBytes? raw = some order
    else order = .little

namespace Reader

variable {r : Reader} {root : Text} {records : List (Text × Bytes)} {content : Bytes}
  {order : ByteOrder} {s : Stream} {E : Error → Stream → Prop}

theorem Reads.ensures_readVersion (h : r.Reads root records content) (ok : Openable records order)
    {Q : Int → Stream → Prop} (hs : s.Has content) (hq : ∀ v t, t.Has content → Q v t) :
    r.readVersion.Ensures s Q E := by
  obtain ⟨record, raw, version, first, hr, parsed, old, new⟩ := ok.version
  have present : r.hasRecord = fun name => decide (name ∈ records.map Prod.fst) := by
    funext name
    rw [Bool.eq_iff_iff, h.hasRecord, decide_eq_true_iff]
  have supported : ¬ (version < oldestVersion ∨ newestVersion < version) := by
    omega
  unfold Reader.readVersion
  rw [present, first]
  dsimp only
  rw [ensures_bind]
  apply h.ensures_readRecord hr hs
  intro t ht
  rw [parsed]
  dsimp only
  rw [if_neg supported]
  exact (ensures_pure _).2 (hq _ _ ht)

theorem Reads.ensures_readByteOrder (h : r.Reads root records content)
    (ok : Openable records order) {Q : ByteOrder → Stream → Prop} (hs : s.Has content)
    (hq : ∀ t, t.Has content → Q order t) : r.readByteOrder.Ensures s Q E := by
  have declared := ok.order
  unfold Reader.readByteOrder
  split at declared
  · next present =>
    obtain ⟨raw, hr, parsed⟩ := declared
    rw [if_pos ((h.hasRecord _).2 present), ensures_bind]
    apply h.ensures_readRecord hr hs
    intro t ht
    rw [parsed]
    exact (ensures_pure _).2 (hq t ht)
  · next absent =>
    rw [if_neg fun present => absent ((h.hasRecord _).1 present), ← declared]
    exact (ensures_pure _).2 (hq s hs)

/-- In the directory of a finished archive its records are found. -/
theorem ensures_readDirectory {Q : Zip.Directory → Stream → Prop} (hs : s.Has content)
    (finished : Finished root records content) (unlike : ¬ Zip.HasLocator content)
    (distinct : (records.map Prod.fst).Nodup) (filled : records ≠ [])
    (hq : ∀ directory t,
      (∀ version order, Reads ⟨membersOf directory, root, version, order⟩ root records content) →
        t.Has content → Q directory t) : Zip.readDirectory.Ensures s Q E := by
  obtain ⟨bytes, items, split, spans⟩ := finished
  have listed : items.map Prod.fst ≠ [] := by
    intro empty
    have named := spans.named
    rw [List.map_eq_nil_iff.1 empty, List.map_nil, eq_comm, List.map_eq_nil_iff] at named
    exact filled named
  have fits : ∀ m ∈ items.map Prod.fst, m.Fits := by
    rw [List.forall_mem_map]
    intro item hi
    exact spans.holds.fits (short_of_finished split hs.short) hi (spans.sound item hi)
  have members : (Zip.directoryOf bytes items).entries =
      (items.map Prod.fst).map Zip.Member.entry := by
    rw [List.map_map]
    rfl
  apply Zip.ensures_readDirectory hs split unlike listed fits
  intro t ht
  rw [← members]
  exact hq _ t (fun _ _ => ⟨rfl, distinct, hs.short, bytes, items, split, spans, rfl⟩) ht

/-- A finished archive is opened, and its records are those that were written. -/
theorem ensures_openArchive {config : Config} {Q : Reader → Stream → Prop} (hs : s.Has content)
    (finished : Finished (rootOf config) records content) (unlike : ¬ Zip.HasLocator content)
    (ok : Openable records order)
    (hq : ∀ r t, Reads r (rootOf config) records content → r.byteOrder = order →
      t.Has content → Q r t) : openArchive.Ensures s Q E := by
  have filled : records ≠ [] := by
    rintro rfl
    cases ok.object
  unfold openArchive
  rw [ensures_bind]
  apply ensures_describing
  apply ensures_readDirectory hs finished unlike ok.distinct filled
  -- Version and byte order are read through a reader that does not have them yet.
  intro directory t reads ht
  have found : findRoot (membersOf directory) = .ok (rootOf config) :=
    findRoot_eq (reads 0 .little).keys ok.distinct ok.object ok.plain
  change Ensures (do
    let root ← Effect.ofExcept (findRoot (membersOf directory))
    _) t Q E
  rw [found, ensures_bind, ensures_ofExcept_ok, ensures_bind]
  apply (reads 0 .little).ensures_readVersion ok ht
  intro version u hu
  rw [ensures_bind]
  apply (reads 0 .little).ensures_readByteOrder ok hu
  intro v hv
  exact (ensures_pure _).2 (hq _ _ (reads version order) rfl hv)

end Reader

end Checkpoint.Archive
