import Checkpoint.Archive.Writer
import Checkpoint.Proofs.Zip.Layout

/-! Archives as they are written: each record that is written is a member with the record's name under
the root and its content, padded or not. -/

namespace Checkpoint.Archive

open Effect

/-- A text that a member can be named by. -/
structure IsName (t : Text) : Prop where
  strict : t.IsStrict
  whole : (0 : CodePoint) ∉ t.points

theorem IsName.append {a b : Text} (ha : IsName a) (hb : IsName b) : IsName (a ++ b) where
  strict := by
    have sa := ha.strict
    have sb := hb.strict
    unfold Text.IsStrict at *
    rw [Text.points_append, List.any_append, sa, sb, Bool.or_self]
  whole := by
    rw [Text.points_append, List.mem_append, not_or]
    exact ⟨ha.whole, hb.whole⟩

theorem storedName_of_whole {m : Zip.Member} (h : (0 : CodePoint) ∉ m.name.points) :
    m.storedName = m.name := by
  apply Text.ext_points
  apply List.takeWhile_eq_self_iff.2
  intro c hc
  simp only [ne_eq, decide_not, Bool.not_eq_true', decide_eq_false_iff_not]
  rintro rfl
  exact h hc

theorem IsName.storedName {m : Zip.Member} (h : IsName m.name) : m.storedName = m.name :=
  storedName_of_whole h.whole

/-- Records under a root, as the members of an archive. -/
structure Spans (root : Text) (records : List (Text × Bytes)) (bytes : Bytes)
    (items : List (Zip.Member × Bytes)) : Prop where
  holds : Zip.Holds bytes items
  sound : ∀ item ∈ items, item.1.Sound
  named : items.map (fun item => (item.1.storedName, item.2)) =
    records.map fun record => (root ++ record.1, record.2)

/-- A member of a record's name that has a local header is sound. -/
theorem sound_at {name : Text} {extra data : Bytes} {start : Nat} (hn : IsName name)
    (fits : Zip.extraFits extra = true) (writable : Zip.Writer.Writable (.at name extra data start)) :
    (Zip.Member.at name extra data start).Sound where
  plain := rfl
  strict := by
    rw [hn.storedName (m := .at name extra data start)]
    exact hn.strict
  name := by
    have := writable.1
    omega
  extraLength := by
    have := writable.2
    omega
  extra := fits
  crc := (Zip.crc32 data).toNat_lt

/-- A record behind those that an archive spans. -/
theorem Spans.snoc {root name : Text} {records : List (Text × Bytes)} {bytes extra data : Bytes}
    {items : List (Zip.Member × Bytes)} (h : Spans root records bytes items) (hn : IsName (root ++ name))
    (fits : Zip.extraFits extra = true)
    (writable : Zip.Writer.Writable (.at (root ++ name) extra data bytes.length)) :
    let m := Zip.Member.at (root ++ name) extra data bytes.length
    Spans root (records ++ [(name, data)]) (bytes ++ m.localHeader ++ data) (items ++ [(m, data)]) where
  holds := h.holds.snoc _ _ _
  sound := by
    rw [List.forall_mem_append, List.forall_mem_singleton]
    exact ⟨h.sound, sound_at hn fits writable⟩
  named := by
    simp only [List.map_append, h.named, List.map_cons, List.map_nil]
    rw [hn.storedName (m := .at (root ++ name) extra data bytes.length)]
    rfl

/-- A finished archive of records, whatever is in front of it. -/
def Finished (root : Text) (records : List (Text × Bytes)) (content : Bytes) : Prop :=
  ∃ bytes items, content = Zip.Writer.finished bytes (items.map Prod.fst) ∧
    Spans root records bytes items

/-- The folder that all records of an archive are written to. -/
def rootOf (config : Config) : Text := config.archiveName ++ "/"

namespace Writer

theorem extraFits_nil : Zip.extraFits [] = true := by
  rw [Zip.extraFits]
  rfl

theorem extraFits_padding {pad : Nat} (h : pad ≤ 65535) :
    Zip.extraFits ([0x46, 0x42] ++ Bytes.littleEndian 2 pad ++ List.replicate pad 0x5a) = true := by
  have size : Zip.fieldAt ([0x46, 0x42] ++ Bytes.littleEndian 2 pad ++ List.replicate pad 0x5a) 2 2 =
      pad := by
    change Bytes.fromLittleEndian (List.take 2 (Bytes.littleEndian 2 pad ++ _)) = pad
    rw [List.take_left' (Bytes.length_littleEndian ..)]
    exact Bytes.fromLittleEndian_of_lt (by omega)
  have length : ([0x46, 0x42] ++ Bytes.littleEndian 2 pad ++
      List.replicate pad (0x5a : UInt8)).length = pad + 4 := by
    simp
    omega
  rw [Zip.extraFits]
  simp only [size, length]
  rw [if_neg (by omega), List.drop_eq_nil_of_le (by omega), extraFits_nil]
  simp

theorem padding_eq (alignment start nameLength : Nat) :
    (∃ extra, padding alignment start nameLength = .ok extra ∧ Zip.extraFits extra = true) ∨
      padding alignment start nameLength = .error .fieldOverflow := by
  unfold padding
  split
  · exact .inl ⟨[], rfl, extraFits_nil⟩
  · dsimp only
    split
    · exact .inr rfl
    · next fits => exact .inl ⟨_, rfl, extraFits_padding (by omega)⟩

theorem paddingFor_eq (w : Writer) {name : Text} (strict : name.IsStrict) : w.paddingFor name =
    padding w.config.storageAlignment w.zip.directoryStart name.utf8.length := by
  unfold paddingFor
  rw [Text.strictUtf8?_eq strict]
  split
  · next unaligned => rw [padding, if_pos unaligned]
  · rfl

/-- Where the next record goes behind one that is written at a place, unless its name or its padding
is too long. -/
def next? (config : Config) (start : Nat) (record : Text × Bytes) : Option Nat :=
  let name := (rootOf config ++ record.1).utf8
  match padding config.storageAlignment start name.length with
  | .ok extra =>
    if name.length ≤ 65535 ∧ extra.length ≤ 65535 then
      some (start + Zip.localHeaderSize + name.length + extra.length + record.2.length)
    else none
  | .error _ => none

/-- Whether records can be written from a place on, with all their numbers in range. -/
def Fits (config : Config) (start : Nat) (records : List (Text × Bytes)) : Prop :=
  ∃ stop, records.foldlM (next? config) start = some stop ∧ stop < Stream.sizeLimit

theorem le_next {config : Config} {start next : Nat} {record : Text × Bytes}
    (h : next? config start record = some next) : start ≤ next := by
  simp only [next?] at h
  split at h
  · split at h
    · cases h
      omega
    · cases h
  · cases h

theorem Fits.start_lt {config : Config} {start : Nat} {records : List (Text × Bytes)}
    (h : Fits config start records) : start < Stream.sizeLimit := by
  obtain ⟨stop, hs, small⟩ := h
  induction records generalizing start with
  | nil =>
    cases hs
    exact small
  | cons record records ih =>
    rw [List.foldlM_cons] at hs
    obtain ⟨next, hn, hs⟩ := Option.bind_eq_some_iff.1 hs
    exact Nat.lt_of_le_of_lt (le_next hn) (ih hs)

theorem fits_cons {config : Config} {start : Nat} {record : Text × Bytes}
    {records : List (Text × Bytes)} : Fits config start (record :: records) ↔
      ∃ next, next? config start record = some next ∧ Fits config next records := by
  simp only [Fits, List.foldlM_cons, Option.bind_eq_bind, Option.bind_eq_some_iff]
  constructor
  · rintro ⟨stop, ⟨next, hn, hs⟩, small⟩
    exact ⟨next, hn, stop, hs, small⟩
  · rintro ⟨next, hn, stop, hs, small⟩
    exact ⟨stop, ⟨next, hn, hs⟩, small⟩

/-- A writer that has written records, whatever was there before. -/
structure Wrote (w : Writer) (config : Config) (before : Stream) (records : List (Text × Bytes)) : Prop where
  settings : w.config = config
  listed : w.records = records.map fun record => rootOf config ++ record.1
  laid : ∃ bytes items, w.zip.Laid before bytes ∧ w.zip.members = items.map Prod.fst ∧
    Spans (rootOf config) records bytes items

theorem Wrote.root_eq {w : Writer} {config : Config} {before : Stream} {records : List (Text × Bytes)}
    (h : w.Wrote config before records) : w.root = rootOf config :=
  congrArg rootOf h.settings

/-- What is left after a failure: a number that outgrew its place, and an archive to be closed. -/
def Lost (e : Error) (w : Writer) : Prop := e.IsOverflow ∧ w.zip.Ready

variable {w : Writer} {config : Config} {before : Stream} {records : List (Text × Bytes)}

theorem next?_eq_some_iff {bytes data extra : Bytes} {name : Text} {place : Nat}
    (hn : IsName (rootOf config ++ name))
    (hp : padding config.storageAlignment bytes.length (rootOf config ++ name).utf8.length = .ok extra) :
    next? config bytes.length (name, data) = some place ↔
      Zip.Writer.Writable (.at (rootOf config ++ name) extra data bytes.length) ∧
      (bytes ++ (Zip.Member.at (rootOf config ++ name) extra data bytes.length).localHeader ++
        data).length = place := by
  have stored : (Zip.Member.at (rootOf config ++ name) extra data bytes.length).storedName =
      rootOf config ++ name := hn.storedName
  simp only [next?, hp, Zip.Writer.Writable, Zip.Member.nameBytes, stored, Zip.Member.localHeader,
    List.length_append, Zip.Member.length_headerWith, Nat.add_assoc, Option.ite_none_right_eq_some,
    Option.some.injEq]
  rfl

theorem ensures_writeRecord {name : Text} {data : Bytes} {Q : Unit → Writer → Prop}
    {E : Error → Writer → Prop} (h : w.Wrote config before records) (hn : IsName (rootOf config ++ name))
    (new : name ∉ records.map Prod.fst)
    (hq : ∀ w', w'.Wrote config before (records ++ [(name, data)]) →
      next? config w.zip.directoryStart (name, data) = some w'.zip.directoryStart → Q () w')
    (hE : (∀ next, next? config w.zip.directoryStart (name, data) = some next →
      Stream.sizeLimit ≤ next) → ∀ e w', Lost e w' → E e w') :
    (writeRecord name data).Ensures w Q E := by
  obtain ⟨bytes, items, laid, members, spans⟩ := h.laid
  have fresh : ¬ w.records.contains (rootOf config ++ name) = true := by
    rw [h.listed, List.contains_iff_mem, List.mem_map]
    rintro ⟨record, hr, same⟩
    exact new (Text.append_left_cancel same ▸ List.mem_map_of_mem hr)
  unfold writeRecord
  rw [ensures_bind, ensures_get]
  simp only [h.root_eq, if_neg fresh, ensures_bind]
  rw [paddingFor_eq w hn.strict, h.settings, laid.start]
  rw [laid.start] at hq hE
  obtain ⟨extra, hp, fits⟩ | hp :=
    padding_eq config.storageAlignment bytes.length (rootOf config ++ name).utf8.length
  · rw [hp, ensures_ofExcept_ok]
    apply ensures_describing
    unfold onZip
    rw [ensures_focus]
    apply Zip.Writer.ensures_add laid
    · rw [hn.storedName]
      exact hn.strict
    · intro z m writable laid' members'
      rw [ensures_modify]
      apply hq
      · refine ⟨h.settings, by simp [h.listed], _, items ++ [(m, data)], laid', ?_,
          spans.snoc hn fits writable⟩
        simp [members', members]
      · exact (next?_eq_some_iff hn hp).2 ⟨writable, laid'.start.symm⟩
    · intro past e z failed
      refine ⟨hE ?_ _ _ ⟨failed.1, failed.2⟩, failed.1.ne_rawStream⟩
      intro place next
      obtain ⟨writable, rfl⟩ := (next?_eq_some_iff hn hp).1 next
      exact past writable
  · rw [hp, ensures_ofExcept_error]
    apply hE _ _ _ ⟨.inl rfl, laid.ready⟩
    intro next hn
    simp only [next?, hp, reduceCtorEq] at hn

section Streams

variable {s : Stream}

theorem ensures_attempt {α : Type} {x : Action α} {Q : Option α → Stream → Prop}
    {E : Error → Stream → Prop}
    (h : x.Ensures s (fun a t => Q (some a) t) fun e t => Zip.Writer.isRefusal e = false ∧ E e t) :
    (Zip.Writer.attempt x).Ensures s Q E := by
  unfold Zip.Writer.attempt
  rw [ensures_tryCatch, ensures_map]
  apply h.mono fun _ _ h => h
  rintro e t ⟨refusal, he⟩
  rw [if_neg (by simp [refusal])]
  exact (ensures_throw _).2 he

/-- On a stream without faults a writer starts with nothing written. -/
theorem ensures_create {Q : Writer → Stream → Prop} {E : Error → Stream → Prop} (h : s.Healthy)
    (hq : ∀ w t, w.Wrote config s [] → w.zip.directoryStart = s.position → Q w t)
    (hE : Stream.sizeLimit ≤ s.position → ∀ e t, e.IsOverflow → E e t) :
    (create config).Ensures s Q E := by
  unfold create Zip.Writer.create
  simp only [ensures_bind]
  apply ensures_attempt
  apply Stream.ensures_tell h
  intro calls
  simp only [ensures_bind]
  apply ensures_attempt
  apply Stream.ensures_seek (h.after calls _ _)
  · intro calls' _
    simp only [ensures_get, ensures_pure]
    refine hq _ _ ⟨rfl, rfl, Stream.front s.content s.position, [], ?_, rfl, Zip.holds_nil _,
      List.forall_mem_nil _, rfl⟩ rfl
    refine ⟨⟨h.after _ _ _, rfl, rfl⟩, rfl, ?_, ?_, fun ended => ?_⟩
    · rw [Stream.length_front]
      rfl
    · exact (Stream.length_front _ _).symm
    · rw [Stream.length_front]
      exact ended.symm
  · exact fun past _ => ⟨rfl, hE past _ _ (.inr rfl)⟩

end Streams

theorem ensures_close {Q : Unit → Writer → Prop} {E : Error → Writer → Prop}
    (h : w.Wrote config before records)
    (hq : ∀ z content, z.stream.Behind before content → Finished (rootOf config) records content →
      Q () { w with zip := z })
    (hE : Stream.sizeLimit ≤ w.zip.directoryStart → ∀ e w', Lost e w' → E e w') :
    close.Ensures w Q E := by
  obtain ⟨bytes, items, laid, members, spans⟩ := h.laid
  unfold close
  apply ensures_describing
  unfold onZip
  rw [ensures_focus]
  apply Zip.Writer.ensures_close laid
  · intro z _ behind _
    rw [members] at behind
    exact hq z _ behind ⟨bytes, items, rfl, spans⟩
  · intro past e z failed
    exact ⟨hE (laid.start ▸ past) _ _ failed, failed.1.ne_rawStream⟩

theorem ensures_writeRecords {new : List (Text × Bytes)} {Q : Unit → Writer → Prop}
    {E : Error → Writer → Prop} (h : w.Wrote config before records)
    (hn : ∀ record ∈ new, IsName (rootOf config ++ record.1))
    (apart : ((records ++ new).map Prod.fst).Nodup)
    (hq : ∀ w', w'.Wrote config before (records ++ new) →
      (Fits config w.zip.directoryStart new → w'.zip.directoryStart < Stream.sizeLimit) → Q () w')
    (hE : ¬ Fits config w.zip.directoryStart new → ∀ e w', Lost e w' → E e w') :
    (new.forM fun record => writeRecord record.1 record.2).Ensures w Q E := by
  induction new generalizing w records with
  | nil =>
    apply (ensures_pure _).2
    apply hq w _ Fits.start_lt
    rwa [List.append_nil]
  | cons record new ih =>
    obtain ⟨hname, hn⟩ := List.forall_mem_cons.1 hn
    have split : records ++ record :: new = records ++ [(record.1, record.2)] ++ new := by
      simp
    rw [ensures_forM_cons]
    apply ensures_writeRecord h hname
    · rw [List.map_append, List.map_cons] at apart
      exact fun hr => (List.nodup_append.1 apart).2.2 _ hr _ List.mem_cons_self rfl
    · intro w' h' next
      rw [split] at apart hq
      rw [fits_cons] at hq hE
      simp only [next, Option.some.injEq, exists_eq_left'] at hq hE
      exact ih h' hn apart hq hE
    · intro past
      apply hE
      rw [fits_cons]
      rintro ⟨next, hn, fits⟩
      exact absurd fits.start_lt (Nat.not_lt.2 (past next hn))

/-- An archive of records with names of their own is written, unless a number outgrows its place. -/
theorem ensures_writing {new : List (Text × Bytes)} {s : Stream} (h : s.Healthy)
    (hn : ∀ record ∈ new, IsName (rootOf config ++ record.1)) (apart : (new.map Prod.fst).Nodup) :
    (writing config (new.forM fun record => writeRecord record.1 record.2)).Ensures s
      (fun names t => names = new.map (fun record => rootOf config ++ record.1) ∧
        ∃ content, t.Behind s content ∧ Finished (rootOf config) new content)
      (fun e _ => e.IsOverflow ∧ ¬ Fits config s.position new) := by
  unfold writing
  rw [ensures_bind]
  apply ensures_create h
  · intro w t hw start
    rw [← start]
    have done : (Effect.andFinally (new.forM fun record => writeRecord record.1 record.2)
        close).Ensures w (fun _ w' => w'.records = new.map (fun record => rootOf config ++ record.1) ∧
          ∃ content, w'.zip.stream.Behind s content ∧ Finished (rootOf config) new content)
        (fun e _ => e.IsOverflow ∧ ¬ Fits config w.zip.directoryStart new) := by
      rw [ensures_andFinally]
      apply ensures_writeRecords hw hn apart
      · intro w' hw' within
        apply ensures_close hw'
        · exact fun z content behind finished => ⟨hw'.listed, content, behind, finished⟩
        · exact fun past _ _ lost => ⟨lost.1, fun fits => Nat.not_lt.2 past (within fits)⟩
      · intro outside e w' lost
        unfold close
        apply ensures_describing
        unfold onZip
        rw [ensures_focus]
        apply Zip.Writer.ready_close lost.2
        · exact fun _ _ => ⟨lost.1, outside⟩
        · exact fun _ _ failed => ⟨⟨failed.1, outside⟩, failed.1.ne_rawStream⟩
    split
    next result w' hp =>
    cases result with
    | ok _ =>
      simp only [ensures_bind, ensures_set, ensures_ofExcept_ok, ensures_pure]
      exact done.of_ok hp
    | error e =>
      simp only [ensures_bind, ensures_set, ensures_ofExcept_error]
      exact done.of_error hp
  · exact fun past _ _ he => ⟨he, fun fits => Nat.not_lt.2 past fits.start_lt⟩

end Writer

end Checkpoint.Archive
