import Checkpoint.Proofs.Archive.Decoding
import Checkpoint.Proofs.Pickle.Integrity

/-! What holds of the references of a stream in every state of its run: what they refer to is
registered, and what is registered has the size that the archive records. -/

namespace Checkpoint

/-- The failures of a check for which a view has to be of a storage that is not registered, or is
registered with another type. -/
def StructureError.IsUnresolved : StructureError → Prop
  | .unregistered _ | .viewType .. => True
  | _ => False

namespace Archive

open Pickle

theorem Arena.check_of_registers {a : Arena} {t : TensorRef} (h : a.Registers t.storageKey t.dtype) :
    ∃ blob, a.blobs.get? t.storageKey = some blob ∧
      a.check t = (checkView t blob.count).mapError .unexpectedStructure := by
  obtain ⟨blob, hb, hd⟩ := h
  refine ⟨blob, hb, ?_⟩
  simp only [check, hb, hd, ne_eq, not_true, if_false]

theorem Arena.resolved_of_checkView {t : TensorRef} {count : Int} {e : StructureError}
    (h : checkView t count = .error e) : ¬ e.IsUnresolved := by
  unfold checkView at h
  repeat' split at h
  all_goals cases h
  all_goals exact id

theorem Arena.resolved_of_check {a : Arena} {t : TensorRef} {e : StructureError}
    (h : a.Registers t.storageKey t.dtype) (he : a.check t = .error (.unexpectedStructure e)) :
    ¬ e.IsUnresolved := by
  obtain ⟨blob, -, hc⟩ := check_of_registers h
  rw [hc] at he
  cases hv : checkView t blob.count with
  | ok _ =>
    rw [hv] at he
    cases he
  | error cause =>
    rw [hv] at he
    cases he
    exact resolved_of_checkView hv

end Archive

namespace Pickle

open Archive Effect

/-- What is demanded of a value in a state: that it is listed, and that attributes have names which
are identifiers, are not reserved and hide no attribute of all mappings. -/
structure Value.IntactIn (v : Value) (m : Machine) : Prop where
  listed : v.Listed m.arena
  attributes : ∀ id o, v = .object id → m.heap.get? id = some o → ∀ name ∈ o.attributeNames,
    name.isIdentifier = true ∧ name.startsWith "__" = false ∧ name ∉ reservedAttributes

/-- What can be reached in a state starts from its stacks and its memo. -/
def Machine.roots (m : Machine) : List Value :=
  m.stack.items ++ m.stack.suspended.flatten ++ m.memo.values

/-- Every value that can be reached in a state is what is demanded. -/
def Machine.Intact (m : Machine) : Prop :=
  ∀ root ∈ m.roots, ∀ v, m.heap.Reaches root v → v.IntactIn m

namespace Machine

variable {m : Machine} {v : Value}

theorem Sound.intactIn (h : m.Sound) (hv : v.Sound m.arena) : v.IntactIn m := by
  refine ⟨hv.listed, ?_⟩
  rintro id o rfl ho name hn
  have allowed := (h.heap id o ho).names name hn
  simpa [isAttributeName, and_assoc] using allowed

theorem Sound.intact (h : m.Sound) : m.Intact := by
  intro root hr v hv
  apply h.intactIn (h.heap.reaches _ hv)
  simp only [roots, Table.values, List.mem_append, List.mem_flatten, List.mem_map] at hr
  obtain (hr | ⟨below, hb, hr⟩) | ⟨e, he, rfl⟩ := hr
  · exact h.items _ hr
  · exact h.suspended below hb _ hr
  · exact h.memo e he

/-- In every state of a run, also the one in which it ends or fails, all that can be reached is what
is demanded; so no view in the value of a stream fails its check for want of a registration. -/
theorem reference_integrity (config : Config) (r : Reader) (bytes : Bytes) :
    (∀ c m, Reaches config (start (.ofReader r) bytes) (c, m) → m.Intact) ∧
    ∀ outcome m, load config (.ofReader r) bytes = (outcome, m) → m.Intact ∧
      ∀ v c, outcome = .ok (v, c) → (∀ w, m.heap.Reaches v w → w.IntactIn m) ∧
        ∀ t e, m.heap.Reaches v (.tensor t) →
          m.arena.check t = .error (.unexpectedStructure e) → ¬ e.IsUnresolved := by
  refine ⟨fun c m h => h.sound.intact, ?_⟩
  intro outcome m h
  have kept : Keeps (run config (Cursor.start bytes)) { arena := .ofReader r } _ :=
    keeps_run (sound_start (.ofReader r)) _
  cases outcome with
  | error e => exact ⟨(kept.of_error h).intact, nofun⟩
  | ok result =>
    obtain ⟨sound, hv⟩ := kept.of_ok h
    refine ⟨sound.intact, ?_⟩
    rintro v c ⟨⟩
    have each (w : Value) (hw : m.heap.Reaches v w) : w.IntactIn m :=
      sound.intactIn (sound.heap.reaches hv hw)
    exact ⟨each, fun t e ht => Arena.resolved_of_check (each _ ht).listed⟩

theorem sized_of_resolve {a b : Arena} {ref : PersistentRef} {blob : Blob}
    (h : a.resolve ref = .ok (blob, b)) (absent : a.blobs.get? ref.key = none) :
    ∃ size, a.reader.storageSize ref.key = .ok size ∧ (size : Int) = ref.count * ref.dtype.size := by
  unfold Arena.resolve at h
  rw [absent] at h
  dsimp only at h
  rw [bind_eq_ok] at h
  obtain ⟨size, hs, h⟩ := h
  split at h
  next => cases h
  next equal => exact ⟨size, hs, not_not.1 equal⟩

theorem ensures_resolvePersistent (config : Config) (c : Cursor) (m : Machine) :
    (resolvePersistent config c).Ensures m (fun _ m' => ∃ ref blob below,
      m.arena.resolve ref = .ok (blob, m'.arena) ∧ m'.stack.items = .persistent ref :: below)
      fun _ _ => True := by
  unfold resolvePersistent
  rw [ensures_bind, ensures_pop]
  split
  · trivial
  · next below _ =>
    rw [ensures_bind, ensures_get, ensures_bind]
    refine ensures_ofExcept (fun ref _ => ?_) fun _ _ => trivial
    rw [ensures_bind]
    refine ensures_ofExcept ?_ fun _ _ => trivial
    rintro ⟨blob, arena⟩ hr
    rw [ensures_bind, ensures_set, ensures_push]
    split
    · trivial
    · exact ⟨ref, blob, below, hr, rfl⟩

theorem resolve_of_reference? {config : Config} {s : Cursor × Machine} {ref : PersistentRef}
    (h : reference? config s = some ref) : ∃ blob b, s.2.arena.resolve ref = .ok (blob, b) := by
  unfold reference? at h
  split at h
  next next _ =>
    split at h
    next m' executed =>
      obtain ⟨ref', blob, below, hr, hs⟩ := (ensures_resolvePersistent config next s.2).of_ok executed
      rw [hs] at h
      cases h
      exact ⟨blob, _, hr⟩
    next => cases h
  next => cases h

theorem Reaches.extends {config : Config} {arena : Arena} {bytes : Bytes} {s : Cursor × Machine}
    (h : Reaches config (start arena bytes) s) : arena.Extends s.2.arena := by
  refine Reaches.induction (P := fun m => arena.Extends m.arena) (fun _ _ h => h) ?_ h .refl
  intro m c i hm
  exact (contained_execute i m).mono (fun _ _ h => hm.trans h) fun _ _ _ => trivial

/-- A reference that a stream makes is to a member of the archive.  The first one to a member
declares its recorded size; what the others have to agree with is the type of the first, whose
declaration stays registered. -/
theorem reference_sized {config : Config} {r : Reader} {bytes : Bytes} {s : Cursor × Machine}
    {ref : PersistentRef} (hs : Reaches config (start (.ofReader r) bytes) s)
    (hr : reference? config s = some ref) :
    ∃ size, r.storageSize ref.key = .ok size ∧
      (s.2.arena.blobs.get? ref.key = none → (size : Int) = ref.count * ref.dtype.size) ∧
      ∀ blob, s.2.arena.blobs.get? ref.key = some blob →
        blob.dtype = ref.dtype ∧ (size : Int) = blob.count * ref.dtype.size := by
  have reader : s.2.arena.reader = r := hs.extends.reader_eq
  obtain ⟨blob, b, resolved⟩ := resolve_of_reference? hr
  cases hb : s.2.arena.blobs.get? ref.key with
  | none =>
    obtain ⟨size, recorded, declared⟩ := sized_of_resolve resolved hb
    rw [reader] at recorded
    exact ⟨size, recorded, fun _ => declared, nofun⟩
  | some registered =>
    have sized : s.2.arena.Sized := hs.extends.sized (Arena.sized_ofReader r)
    obtain ⟨size, recorded, declared⟩ := sized ref.key registered hb
    rw [reader] at recorded
    -- A key that is registered is resolved at once, whatever count the reference declares.
    have same : registered.dtype = ref.dtype := by
      simp only [Arena.resolve, hb] at resolved
      split at resolved
      next same => exact same
      next => cases resolved
    refine ⟨size, recorded, nofun, ?_⟩
    rintro _ ⟨⟩
    exact ⟨same, same ▸ declared⟩

end Machine

/-- A reference to a storage of single floats, as a stream makes it. -/
def referenceTo (key : Text) (count : UInt8) : List Instruction := [
  .mark, .shortUnicode "storage", .global "torch" "FloatStorage", .shortUnicode key,
  .shortUnicode "cpu", .int1 count, .tuple, .persistentId]

/-- A stream that refers to one storage twice: as one element, then as nine. -/
def twiceReferring : Bytes :=
  (referenceTo "0" 1 ++ referenceTo "0" 9 ++ [Instruction.tuple2, .stop]).flatMap Instruction.encode

/-- An archive with a storage of four bytes. -/
def fourBytes : Reader where
  members := ⟨[("archive/data/0", {
    name := "archive/data/0", fullName := "archive/data/0", flags := 0, method := 0, crc := 0,
    storedSize := 4, size := 4, headerOffset := 0 }, 64)]⟩
  root := "archive/"
  version := 3
  byteOrder := .little

namespace Machine

theorem reference_sized_twice : ∃ s ref,
    Reaches {} (start (.ofReader fourBytes) twiceReferring) s ∧ reference? {} s = some ref ∧
    ∃ size, fourBytes.storageSize ref.key = .ok size ∧
      (s.2.arena.blobs.get? ref.key = none → (size : Int) = ref.count * ref.dtype.size) ∧
      ∀ blob, s.2.arena.blobs.get? ref.key = some blob →
        blob.dtype = ref.dtype ∧ (size : Int) = blob.count * ref.dtype.size := by
  have first : ((advanced? {} (start (.ofReader fourBytes) twiceReferring) 7).bind
      (reference? {})).isSome = true := by
    decide +kernel
  obtain ⟨ref, h⟩ := Option.isSome_iff_exists.1 first
  obtain ⟨s, hs, hr⟩ := Option.bind_eq_some_iff.1 h
  exact ⟨s, ref, reaches_of_advanced hs, hr, reference_sized (reaches_of_advanced hs) hr⟩

/-- The stream is accepted, though its second reference declares 36 bytes for the four there are. -/
theorem twiceReferring_accepted :
    (∃ v c m, load {} (.ofReader fourBytes) twiceReferring = (.ok (v, c), m)) ∧
    ∃ s ref, Reaches {} (start (.ofReader fourBytes) twiceReferring) s ∧
      reference? {} s = some ref ∧ fourBytes.storageSize ref.key = .ok 4 ∧
      ref.count * ref.dtype.size = 36 := by
  constructor
  · have accepted : (load {} (.ofReader fourBytes) twiceReferring).1.toOption.map (fun _ => ()) =
        some () := by
      decide +kernel
    obtain ⟨⟨v, c⟩, m, loaded, -⟩ := exists_done_of_map accepted
    exact ⟨v, c, m, loaded⟩
  · have second : (advanced? {} (start (.ofReader fourBytes) twiceReferring) 15).bind
        (reference? {}) = some { key := "0", dtype := .float32, count := 9, location := "cpu" } := by
      decide +kernel
    obtain ⟨s, hs, hr⟩ := Option.bind_eq_some_iff.1 second
    exact ⟨s, _, reaches_of_advanced hs, hr, rfl, rfl⟩

end Machine

end Pickle

end Checkpoint
