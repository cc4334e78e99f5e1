import Checkpoint.Proofs.Pickle.Arrival
import Checkpoint.Proofs.Pickle.Image
import Checkpoint.Proofs.Pickle.MemoSoundness

/-! A machine that follows a writing.  While instructions are written, the machine that runs them
keeps what has been stored under the numbers of the writer's memo. -/

namespace Checkpoint.Pickle

open Archive Effect

/-- The instructions of a stream, as bytes. -/
def bytesOf (written : List Written) : Bytes :=
  written.flatMap fun w => w.instruction.encode

theorem bytesOf_append (a b : List Written) : bytesOf (a ++ b) = bytesOf a ++ bytesOf b :=
  List.flatMap_append

/-- What is fixed while a graph is written and read again: the tensors that are written, the
storages of the whole stream, and an archive that has them in the sizes that references declare.
Tensors over one storage have one type; the writer sees to that only where the storage is not
empty. -/
structure Scene where
  config : Config
  graph : Graph
  tensors : Tensor → Prop
  uses : List StorageUse
  reader : Reader
  alike : ∀ use ∈ uses, ∀ t, tensors t → use.storage = t.storage →
    graph.memory.buffer t.storage = [] → use.dtype = t.dtype
  present : ∀ n use, uses[n]? = some use →
    reader.storageSize (Text.ofNat n) = .ok (use.count graph.memory * use.dtype.size)

namespace Scene

/-- The registration of a storage. -/
def blob (S : Scene) (n : Nat) (use : StorageUse) : Blob where
  key := Text.ofNat n
  dtype := use.dtype
  count := use.count S.graph.memory
  size := (use.count S.graph.memory : Int) * use.dtype.size

/-- The reference to a storage. -/
def reference (S : Scene) (n : Nat) (use : StorageUse) : PersistentRef where
  key := Text.ofNat n
  dtype := use.dtype
  count := (S.blob n use).count
  location := Encoder.locationWord

/-- The references of the stream. -/
def Refers (S : Scene) (r : PersistentRef) : Prop :=
  ∃ n use, S.uses[n]? = some use ∧ r = S.reference n use

abbrev Shows (S : Scene) (w : World) : Nat → Value → Prop := Pickle.Shows S.graph S.uses w

abbrev Stands (S : Scene) (w : World) : Identity → Value → Prop := Pickle.Stands S.graph S.uses w

/-- What writing an object changes: nothing that was there. -/
abbrev Grew (S : Scene) (w : World) (h : Heap) (w' : World) (h' : Heap) : Prop :=
  Pickle.Grew S.graph S.uses (fun _ => False) w h w' h'

/-- What filling an object changes. -/
abbrev Fills (S : Scene) (o : Nat) (w : World) (h : Heap) (w' : World) (h' : Heap) : Prop :=
  Pickle.Grew S.graph S.uses (· = o) w h w' h'

end Scene

/-- The machine has what the writer's memo has, and registered storages as they are. -/
structure Sim (S : Scene) (memo : Table Identity Nat) (w : World) (position : Nat) (m : Machine) :
    Prop where
  numbers : ∀ o n, memo.get? o = some n → n < memo.size
  stands : ∀ o n, memo.get? o = some n → ∃ v, m.memo.get? n = some v ∧ S.Stands w o v
  clock : w.clock ≤ position
  births : ∀ birth id, w.origin birth = some id → birth ≤ position
  stored : ∀ birth id, w.origin birth = some id → (S.graph.node id).isFilledTuple = true →
    memo.contains (.node id) = true
  once : ∀ birth birth' id, w.origin birth = some id → w.origin birth' = some id →
    (S.graph.node id).isFilledTuple = true → birth = birth'
  placed : ∀ id o, w.place id = some o →
    o < m.heap.objects.size ∧ memo.contains (.node id) = true
  apart : ∀ id id' o, w.place id = some o → w.place id' = some o → id = id'
  reader : m.arena.reader = S.reader
  unread : m.arena.loaded = {}
  blobs : ∀ key blob, m.arena.blobs.get? key = some blob →
    ∃ n use, S.uses[n]? = some use ∧ key = Text.ofNat n ∧ blob = S.blob n use
  registered : ∀ n, w.registered n →
    ∃ use, S.uses[n]? = some use ∧ m.arena.blobs.get? (Text.ofNat n) = some (S.blob n use)

/-- From one state of the writer to another, a machine that runs what has been written goes from
states of one kind to states that are in a relation with them. -/
def Follows (S : Scene) (e e' : Encoder) (P : World → Machine → Prop)
    (R : World → Machine → World → Machine → Prop) : Prop :=
  ∃ written, e'.history = e.history ++ written ∧ e.storages <+: e'.storages ∧
    (Encoder.Entered S.tensors e.storages → Encoder.Entered S.tensors e'.storages) ∧
    (e'.storages <+: S.uses → ∀ w c next m, Sim S e.memo w c.position m → P w m →
      c.Spells (bytesOf written) next →
      Machine.Arrives S.config S.Refers c m fun c' m' => c' = next ∧
        ∃ w', Sim S e'.memo w' next.position m' ∧ R w m w' m')

/-- An action of the writer that a machine follows. -/
structure Tracks (S : Scene) (N : Nat → Prop) (e : Encoder) (x : Encoder.Encoding Unit)
    (P : World → Machine → Prop) (R : World → Machine → World → Machine → Prop) : Prop where
  ensures : x.Ensures e (fun _ e' => (Encoder.Orderly True e' ∧ Encoder.StoresWithin N e e') ∧
    Follows S e e' P R) fun _ _ => True

section Laws

variable {S : Scene} {N M : Nat → Prop} {e e' e'' : Encoder} {x y : Encoder.Encoding Unit}
  {P Q : World → Machine → Prop} {R T U : World → Machine → World → Machine → Prop}

theorem Tracks.of_keeps (hk : Encoder.Keeps True N e x)
    (hx : x.Ensures e (fun _ e' => Follows S e e' P R) fun _ _ => True) : Tracks S N e x P R :=
  ⟨(hk.ensures.and hx).mono (fun _ _ h => h) fun _ _ _ => trivial⟩

theorem Follows.trans (h : Follows S e e' P R) (h' : Follows S e' e'' Q T)
    (link : ∀ w m w' m', P w m → R w m w' m' →
      Q w' m' ∧ ∀ w'' m'', T w' m' w'' m'' → U w m w'' m'') : Follows S e e'' P U := by
  obtain ⟨a, ha, hs, entered, run⟩ := h
  obtain ⟨b, hb, hs', entered', run'⟩ := h'
  refine ⟨a ++ b, by rw [hb, ha, List.append_assoc], hs.trans hs', fun h => entered' (entered h), ?_⟩
  intro hu w c next m sim hp spells
  rw [bytesOf_append, Cursor.spells_append] at spells
  obtain ⟨mid, first, second⟩ := spells
  apply (run (hs'.trans hu) w c mid m sim hp first).bind
  rintro _ m' ⟨rfl, w', sim', hr⟩
  obtain ⟨hp', hout⟩ := link w m w' m' hp hr
  apply (run' hu w' _ next m' sim' hp' second).mono
  rintro _ m'' ⟨rfl, w'', sim'', hr'⟩
  exact ⟨rfl, w'', sim'', hout w'' m'' hr'⟩

theorem Tracks.bind (h : Tracks S N e x P R) (hN : ∀ id, N id → M id)
    (hy : ∀ e', Encoder.Orderly True e' → Encoder.StoresWithin N e e' → Tracks S M e' y Q T)
    (link : ∀ w m w' m', P w m → R w m w' m' →
      Q w' m' ∧ ∀ w'' m'', T w' m' w'' m'' → U w m w'' m'') :
    Tracks S M e (x >>= fun _ => y) P U := by
  constructor
  rw [ensures_bind]
  apply h.ensures.post
  rintro _ e' ⟨⟨orderly, within⟩, follows⟩
  apply (hy e' orderly within).ensures.post
  rintro _ e'' ⟨⟨orderly', within'⟩, follows'⟩
  exact ⟨⟨orderly', (within.mono hN).trans within'⟩, follows.trans follows' link⟩

theorem Tracks.mono (h : Tracks S N e x P R) (hN : ∀ id, N id → M id)
    (hp : ∀ w m, Q w m → P w m)
    (hr : ∀ w m w' m', Q w m → R w m w' m' → T w m w' m') : Tracks S M e x Q T := by
  constructor
  apply h.ensures.post
  rintro _ e' ⟨⟨orderly, within⟩, written, hw, hs, entered, run⟩
  refine ⟨⟨orderly, within.mono hN⟩, written, hw, hs, entered, ?_⟩
  intro hu w c next m sim hp' spells
  apply (run hu w c next m sim (hp w m hp') spells).mono
  rintro _ m' ⟨rfl, w', sim', hr'⟩
  exact ⟨rfl, w', sim', hr w m w' m' hp' hr'⟩

theorem follows_refl (hr : ∀ w m, P w m → R w m w m) : Follows S e e P R := by
  refine ⟨[], (List.append_nil _).symm, List.prefix_rfl, fun h => h, ?_⟩
  intro _ w c next m sim hp spells
  obtain rfl := Cursor.spells_nil.1 spells
  exact .here ⟨rfl, w, sim, hr w m hp⟩

end Laws

end Checkpoint.Pickle
