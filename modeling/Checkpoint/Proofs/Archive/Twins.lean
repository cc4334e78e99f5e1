import Checkpoint.Archive.Load
import Checkpoint.Proofs.Archive.Records
import Checkpoint.Proofs.Pickle.Porting
import Checkpoint.Proofs.Reconcile
import Checkpoint.Proofs.Twins
import Checkpoint.Transfer

/-! Twin archives.  They have the same members, of the same sizes at the same places; storages that are
spared may hold anything.  Where no such storage is asked for, two readers are in step. -/

namespace Checkpoint.Archive

open Effect Checkpoint.Stream Pickle

variable {healed : Prop} {S T s t : Stream} {spare : Text → Prop} {d d' : Zip.Directory} {r r' : Reader}

/-- A member under that name is a storage that is spared. -/
def Spared (spare : Text → Prop) (root name : Text) : Prop :=
  ∃ key, spare key ∧ name = root ++ storageRecord key

theorem not_spared_storage {root key : Text} (wanted : ¬ spare key) :
    ¬ Spared spare root (root ++ storageRecord key) := by
  rintro ⟨key', spared, same⟩
  obtain rfl : key = key' := Text.append_left_cancel (Text.append_left_cancel same)
  exact wanted spared

theorem not_spared_record {root name : Text} (h : storageFolder.points.isPrefixOf name.points = false) :
    ¬ Spared spare root (root ++ name) := by
  rintro ⟨key, -, same⟩
  exact storageRecord_ne h key (Text.append_left_cancel same).symm

/-- Two directories list members with the same names and sizes at the same places.  But for storages that are
spared they are themselves the same, and alike in both streams; where no root is found, nothing is asked of
them. -/
structure Directories (healed : Prop) (S T : Stream) (spare : Text → Prop) (d d' : Zip.Directory) :
    Prop where
  start : d'.start = d.start
  entries : List.Forall₂ (fun e e' => e'.name = e.name ∧ e'.headerOffset = e.headerOffset ∧
    e'.size = e.size ∧ ((∀ root, findRoot (membersOf d) = .ok root → Spared spare root e.name) ∨
      e' = e ∧ e.Alike healed S T)) d.entries d'.entries

/-- What two readers find as a member. -/
def MemberTwins (healed : Prop) (S T : Stream) (spare : Text → Prop) (root : Text) (name : Text)
    (found found' : Zip.Entry × Int) : Prop :=
  found'.1.size = found.1.size ∧
    (Spared spare root name ∨ found' = found ∧ found.1.Alike healed S T)

/-- Two readers have members with the same names, of the same sizes.  But for storages that are spared they are
themselves the same, and alike in both streams. -/
structure Reader.Twins (healed : Prop) (S T : Stream) (spare : Text → Prop) (r r' : Reader) : Prop where
  root : r'.root = r.root
  byteOrder : r'.byteOrder = r.byteOrder
  members : Table.Related (MemberTwins healed S T spare r.root) r.members.entries r'.members.entries

/-! ### Directories -/

theorem limit_eq {e e' : Zip.Entry} {index : Nat} (start : d'.start = d.start)
    (offsets : d'.entries.map Zip.Entry.headerOffset = d.entries.map Zip.Entry.headerOffset)
    (offset : e'.headerOffset = e.headerOffset) : d'.limit index e' = d.limit index e := by
  have shared (d : Zip.Directory) (e : Zip.Entry) :
      (d.entries.take index).any (·.headerOffset == e.headerOffset) =
        ((d.entries.map Zip.Entry.headerOffset).take index).any (· == e.headerOffset) := by
    rw [← List.map_take, List.any_map]
    rfl
  rw [Zip.Directory.limit, Zip.Directory.limit, shared, shared, offsets, offset, start]

theorem related_listed {V : Text → Zip.Entry × Int → Zip.Entry × Int → Prop}
    (start : d'.start = d.start) (h : List.Forall₂ (fun e e' => e'.name = e.name ∧
      e'.headerOffset = e.headerOffset ∧ ∀ limit, V e.name (e, limit) (e', limit)) d.entries d'.entries) :
    Table.Related V (listed d) (listed d') := by
  have offsets : d'.entries.map Zip.Entry.headerOffset = d.entries.map Zip.Entry.headerOffset :=
    (map_eq_map_of_forall₂ h fun _ _ h => h.2.1.symm).symm
  unfold listed
  rw [← h.length_eq]
  generalize List.range d.entries.length = places
  -- The limits are those of all entries, however many of them are still to come.
  generalize hd : d.entries = entries, hd' : d'.entries = entries' at h
  clear hd hd'
  induction h generalizing places with
  | nil =>
    rw [List.zip_nil_right]
    exact .nil
  | @cons e e' _ _ h _ ih =>
    cases places with
    | nil => exact .nil
    | cons place places =>
      obtain ⟨name, offset, related⟩ := h
      refine .cons ⟨name, ?_⟩ (ih places)
      dsimp only
      rw [limit_eq start offsets offset]
      exact related _

theorem findRoot_congr {members members' : Table Text (Zip.Entry × Int)}
    (keys : members'.keys = members.keys) (contains : ∀ name, members'.contains name = members.contains name) :
    findRoot members' = findRoot members := by
  simp only [findRoot, keys, contains]

namespace Directories

theorem members {root : Text} (h : Directories healed S T spare d d')
    (found : findRoot (membersOf d) = .ok root) :
    Table.Related (MemberTwins healed S T spare root) (membersOf d).entries (membersOf d').entries := by
  refine Table.related_ofList (related_listed h.start (h.entries.imp ?_))
  rintro e e' ⟨name, offset, size, alike⟩
  refine ⟨name, offset, fun limit => ⟨size, ?_⟩⟩
  obtain spared | ⟨rfl, alike⟩ := alike
  · exact .inl (spared root found)
  · exact .inr ⟨rfl, alike⟩

theorem findRoot_eq (h : Directories healed S T spare d d') :
    findRoot (membersOf d') = findRoot (membersOf d) := by
  have related : Table.Related (fun _ _ _ => True) (membersOf d).entries (membersOf d').entries :=
    Table.related_ofList (related_listed h.start
      (h.entries.imp fun _ _ h => ⟨h.1, h.2.1, fun _ => trivial⟩))
  exact findRoot_congr related.keys_eq related.contains_eq

end Directories

/-! ### Records -/

namespace Reader

variable {name : Text} {config : Config}

theorem Twins.hasRecord (twins : Reader.Twins healed S T spare r r') (name : Text) :
    r'.hasRecord name = r.hasRecord name := by
  rw [Reader.hasRecord, twins.root, twins.members.contains_eq]
  rfl

theorem Twins.entry (twins : Reader.Twins healed S T spare r r') (name : Text) :
    (r.entry name = .error (.unknownKey (r.root ++ name)) ∧ r'.entry name = r.entry name) ∨
      ∃ found found', r.entry name = .ok found ∧ r'.entry name = .ok found' ∧
        MemberTwins healed S T spare r.root (r.root ++ name) found found' := by
  rw [Reader.entry, Reader.entry, entry?, entry?, twins.root]
  obtain ⟨absent, absent'⟩ | ⟨found, found', has, has', related⟩ := twins.members.get?_eq (r.root ++ name)
  · rw [absent, absent']
    exact .inl ⟨rfl, rfl⟩
  · rw [has, has']
    exact .inr ⟨found, found', rfl, rfl, related⟩

theorem Twins.requireStorage (twins : Reader.Twins healed S T spare r r') (key : Text) :
    r'.requireStorage key = r.requireStorage key := by
  rw [Reader.requireStorage, Reader.requireStorage, twins.hasRecord, twins.root]

/-- The sizes of the storages are the same, spared or not. -/
theorem Twins.storageSize (twins : Reader.Twins healed S T spare r r') (key : Text) :
    r'.storageSize key = r.storageSize key := by
  rw [Reader.storageSize, Reader.storageSize, twins.requireStorage, recordSize, recordSize]
  obtain ⟨-, same⟩ | ⟨found, found', has, has', size, -⟩ := twins.entry (storageRecord key)
  · rw [same]
  · rw [has, has']
    exact congrArg (fun size => r.requireStorage key >>= fun _ => Except.ok size) size

theorem synced_readRecord (streams : Stream.Twins healed S T) (twins : Reader.Twins healed S T spare r r')
    (kept : ¬ Spared spare r.root (r.root ++ name)) (h : Abreast S T s t) :
    InStep (Told healed) (r.readRecord name) s (r'.readRecord name) t fun a s' b t' =>
      Abreast S T s' t' ∧ a = b := by
  unfold readRecord readRange
  obtain ⟨failed, same⟩ | ⟨⟨e, limit⟩, found', has, has', -, spared | ⟨rfl, alike⟩⟩ := twins.entry name
  · rw [same, failed]
    exact inStep_throw _
  · exact absurd spared kept
  · rw [has, has']
    refine inStep_ofExcept (.ok (e, limit)) ?_
    rintro _ ⟨⟩
    refine InStep.describing ?_ _ (Told.of_excused _)
    refine (Zip.synced_openEntry streams h alike).bind ?_
    rintro o s₁ _ t₁ - opens
    obtain rfl := opens.same
    exact Zip.synced_readRange streams opens _ _

theorem synced_readVersion (streams : Stream.Twins healed S T) (twins : Reader.Twins healed S T spare r r')
    (h : Abreast S T s t) : InStep (Told healed) r.readVersion s r'.readVersion t fun a s' b t' =>
      Abreast S T s' t' ∧ a = b := by
  have same : r'.hasRecord = r.hasRecord := funext twins.hasRecord
  unfold readVersion
  rw [same]
  split
  · exact inStep_throw _
  · next record found =>
    have listed := List.mem_of_find?_eq_some found
    have plain : storageFolder.points.isPrefixOf record.points = false := by
      simp only [versionRecords, List.mem_cons, List.not_mem_nil, or_false] at listed
      obtain rfl | rfl := listed <;> decide
    refine (synced_readRecord streams twins (not_spared_record plain) h).bind ?_
    rintro raw s₁ _ t₁ - ⟨h, rfl⟩
    split
    · exact inStep_throw _
    · exact inStep_unless fun _ => inStep_pure ⟨h, rfl⟩

theorem synced_readByteOrder (streams : Stream.Twins healed S T)
    (twins : Reader.Twins healed S T spare r r') (h : Abreast S T s t) :
    InStep (Told healed) r.readByteOrder s r'.readByteOrder t fun a s' b t' =>
      Abreast S T s' t' ∧ a = b := by
  unfold readByteOrder
  rw [twins.hasRecord]
  split
  · refine (synced_readRecord streams twins (not_spared_record (by decide)) h).bind ?_
    rintro raw s₁ _ t₁ - ⟨h, rfl⟩
    split
    · exact inStep_pure ⟨h, rfl⟩
    · exact inStep_throw _
  · exact inStep_pure ⟨h, rfl⟩

/-- Where the directories are found in step, so are the archives opened. -/
theorem synced_openArchive (streams : Stream.Twins healed S T)
    (listed : Synced (Excused healed) Zip.readDirectory s t fun d s' d' t' =>
      Abreast S T s' t' ∧ Directories healed S T spare d d') :
    Synced (Told healed) openArchive s t fun r s' r' t' =>
      Abreast S T s' t' ∧ Reader.Twins healed S T spare r r' := by
  refine (listed.describing _ (Told.of_excused _)).bind ?_
  rintro d s₁ d' t₁ - ⟨h, directories⟩
  dsimp only
  rw [directories.findRoot_eq]
  refine inStep_ofExcept _ fun root found => ?_
  have twins (version version' : Int) (order : ByteOrder) : Reader.Twins healed S T spare
      ⟨membersOf d, root, version, order⟩ ⟨membersOf d', root, version', order⟩ :=
    ⟨rfl, rfl, directories.members found⟩
  refine (synced_readVersion streams (twins 0 0 .little) h).bind ?_
  rintro version s₂ _ t₂ - ⟨h, rfl⟩
  refine (synced_readByteOrder streams (twins 0 0 .little) h).bind ?_
  rintro order s₃ _ t₃ - ⟨h, rfl⟩
  exact inStep_pure ⟨h, twins _ _ _⟩

end Reader

/-! ### Object streams -/

theorem checkEntries_portedTo (heap : Heap) (a : Arena) (r : Reader) (entries : List (Value × Value)) :
    checkEntries heap (a.portedTo r) entries = checkEntries heap a entries := by
  fun_induction checkEntries heap a entries with
  | case2 name ref rest ih =>
    rw [checkEntries, Arena.check_portedTo]
    exact congrArg (a.check ref >>= ·) (funext fun _ => by rw [ih])
  | _ => simp only [checkEntries]

theorem ofValue_portedTo (heap : Heap) (a : Arena) (r : Reader) (v : Value) :
    Decoded.ofValue heap (a.portedTo r) v = Decoded.ofValue heap a v := by
  simp only [Decoded.ofValue, checkEntries_portedTo]

/-- The same has been found in both archives, with the same storages. -/
structure Carried {α : Type} (S T : Stream) (r r' : Reader) (found : α × Arena) (s : Stream)
    (found' : α × Arena) (t : Stream) : Prop where
  abreast : Abreast S T s t
  same : found' = (found.1, found.2.portedTo r')
  reader : found.2.reader = r

theorem Reader.synced_decode {config : Config} (streams : Stream.Twins healed S T)
    (twins : Reader.Twins healed S T spare r r') (h : Abreast S T s t) :
    InStep (Told healed) (r.decode config) s (r'.decode config) t (Carried S T r r') := by
  refine (synced_readRecord streams twins (not_spared_record (by decide)) h).bind ?_
  rintro bytes s₁ _ t₁ - ⟨h, rfl⟩
  obtain ⟨e, m, m', refused, refused'⟩ | ⟨⟨v, c⟩, m, loaded, loaded'⟩ :=
    Machine.load_portedTo twins.storageSize config bytes
  · simp only [refused, refused']
    exact inStep_throw e
  · have registers := (load_contained config r bytes).of_ok loaded
    simp only [loaded, loaded', Machine.portedTo, ofValue_portedTo]
    refine inStep_ofExcept (.ok (v, c)) ?_
    rintro _ ⟨⟩
    refine inStep_ofExcept _ fun decoded _ => ?_
    exact inStep_pure ⟨h, rfl, registers.reader_eq⟩

/-- Twin archives are opened and decoded in step. -/
theorem synced_decoding {config : Config} (streams : Stream.Twins healed S T)
    (listed : Synced (Excused healed) Zip.readDirectory s t fun d s' d' t' =>
      Abreast S T s' t' ∧ Directories healed S T spare d d') :
    Synced (Told healed) (do (← Reader.openArchive).decode config) s t fun found s' found' t' =>
      ∃ r r', Reader.Twins healed S T spare r r' ∧ Carried S T r r' found s' found' t' := by
  refine (Reader.synced_openArchive streams listed).bind ?_
  rintro r s₁ r' t₁ - ⟨h, twins⟩
  exact (Reader.synced_decode streams twins h).mono fun _ _ _ _ carried => ⟨r, r', twins, carried⟩

/-! ### Storages -/

namespace Arena

variable {a : Arena} {key : Text}

theorem synced_storage (streams : Stream.Twins healed S T) (twins : Reader.Twins healed S T spare r r')
    (reads : a.reader = r) (wanted : ¬ spare key) (h : Abreast S T s t) :
    InStep (Told healed) (a.storage key) s ((a.portedTo r').storage key) t (Carried S T r r') := by
  subst reads
  unfold storage
  rw [blobs_portedTo]
  split
  · exact inStep_throw _
  · rw [loaded_portedTo]
    split
    · exact inStep_pure ⟨h, rfl, rfl⟩
    · have read : InStep (Told healed) (a.reader.readStorage key) s (r'.readStorage key) t
          fun bytes s' bytes' t' => Abreast S T s' t' ∧ bytes = bytes' := by
        unfold Reader.readStorage
        rw [twins.requireStorage]
        refine inStep_ofExcept _ fun _ _ => ?_
        exact Reader.synced_readRecord streams twins (not_spared_storage wanted) h
      refine read.bind ?_
      rintro bytes s₁ _ t₁ - ⟨h, rfl⟩
      rw [reader_portedTo, twins.byteOrder]
      dsimp only
      split
      · exact inStep_pure ⟨h, rfl, rfl⟩
      · split
        · exact inStep_pure ⟨h, rfl, rfl⟩
        · exact inStep_throw _

theorem synced_materialize {ref : TensorRef} (streams : Stream.Twins healed S T)
    (twins : Reader.Twins healed S T spare r r') (reads : a.reader = r) (wanted : ¬ spare ref.storageKey)
    (h : Abreast S T s t) :
    InStep (Told healed) (a.materialize ref) s ((a.portedTo r').materialize ref) t (Carried S T r r') := by
  unfold materialize
  rw [check_portedTo]
  refine inStep_ofExcept _ fun _ _ => ?_
  refine (synced_storage streams twins reads wanted h).bind ?_
  rintro ⟨bytes, b⟩ s₁ _ t₁ - ⟨h, rfl, reads⟩
  exact inStep_ofExcept _ fun _ _ => inStep_pure ⟨h, rfl, reads⟩

theorem synced_materializeAll {refs : List (Text × TensorRef)} (streams : Stream.Twins healed S T)
    (twins : Reader.Twins healed S T spare r r') (reads : a.reader = r)
    (wanted : ∀ named ∈ refs, ¬ spare named.2.storageKey) (h : Abreast S T s t) :
    InStep (Told healed) (a.materializeAll refs) s ((a.portedTo r').materializeAll refs) t
      (Carried S T r r') := by
  induction refs generalizing a s t with
  | nil => exact inStep_pure ⟨h, rfl, reads⟩
  | cons named refs ih =>
    obtain ⟨first, others⟩ := List.forall_mem_cons.1 wanted
    refine (synced_materialize streams twins reads first h).bind ?_
    rintro ⟨tensor, b⟩ s₁ _ t₁ - ⟨h, rfl, reads⟩
    refine (ih reads others h).bind ?_
    rintro ⟨tensors, c⟩ s₂ _ t₂ - ⟨h, rfl, reads⟩
    exact inStep_pure ⟨h, rfl, reads⟩

end Arena

/-! ### Loads -/

section Loads

variable {config : Config} {policy : Policy} {target : List Text}

/-- A storage belongs to a tensor that the archive and a target share, as its object stream says. -/
def Shares (config : Config) (policy : Policy) (target : List Text) (s : Stream) (key : Text) : Prop :=
  ∃ decoded s', (decode config).perform s = (.ok decoded, s') ∧
    ∃ named ∈ decoded.refs, policy.shares target named.1 = true ∧ named.2.storageKey = key

/-- Reading for a target, no other storages are asked for than those of the tensors that are shared. -/
theorem synced_readFor (streams : Stream.Twins healed S T)
    (listed : Synced (Excused healed) Zip.readDirectory s t fun d s' d' t' =>
      Abreast S T s' t' ∧ Directories healed S T spare d d')
    (wanted : ∀ key, Shares config policy target s key → ¬ spare key) :
    Synced (Told healed) (readFor config policy target) s t fun a s' b t' =>
      Abreast S T s' t' ∧ a = b := by
  unfold readFor
  rw [← bind_assoc]
  refine (synced_decoding streams listed).bind ?_
  rintro ⟨decoded, arena⟩ s₁ _ t₁ found ⟨r, r', twins, h, rfl, reads⟩
  have shared : ∀ named ∈ decoded.refs.filter (fun named => policy.shares target named.1),
      ¬ spare named.2.storageKey := by
    intro named hn
    obtain ⟨listed, shared⟩ := List.mem_filter.1 hn
    refine wanted _ ⟨decoded, s₁, ?_, named, listed, shared, rfl⟩
    rw [decode, ← bind_assoc]
    exact perform_bind_eq_ok.2 ⟨_, _, found, rfl⟩
  have fetch : InStep (Told healed) (do
      let held ← arena.materializeAll (decoded.refs.filter fun named => policy.shares target named.1)
      return { state := { tensors := held.1, memory := held.2.memory }
               names := decoded.refs.map Prod.fst : Incoming }) s₁ (do
      let held ← (arena.portedTo r').materializeAll
        (decoded.refs.filter fun named => policy.shares target named.1)
      return { state := { tensors := held.1, memory := held.2.memory }
               names := decoded.refs.map Prod.fst : Incoming }) t₁ fun a s' b t' => Abreast S T s' t' ∧ a = b := by
    refine (Arena.synced_materializeAll streams twins reads shared h).bind ?_
    rintro ⟨tensors, arena'⟩ s₂ _ t₂ - ⟨h, rfl, -⟩
    exact inStep_pure ⟨h, rfl⟩
  dsimp only
  split
  · exact inStep_ofExcept _ fun _ _ => fetch
  · exact fetch

end Loads

end Checkpoint.Archive
