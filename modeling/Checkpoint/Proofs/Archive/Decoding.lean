import Checkpoint.Archive.Save
import Checkpoint.Proofs.Archive.View
import Checkpoint.Proofs.Pickle.Containment
import Checkpoint.Proofs.Tensor.Elements

/-! What holds of every archive that is decoded, whatever its object stream says: failures are the
documented ones, and every view lies within its storage. -/

namespace Checkpoint

namespace Archive

open Pickle Effect

/-- A size that is a product with an element size is one with a natural number. -/
theorem exists_count {n : Int} {d : DType} {size : Nat} (h : (size : Int) = n * d.size) :
    ∃ count : Nat, n = count ∧ size = count * d.size := by
  have hn : 0 ≤ n := by
    by_contra hn
    have := Int.mul_neg_of_neg_of_pos (Int.not_le.1 hn) (Int.ofNat_lt.2 d.size_pos)
    omega
  obtain ⟨count, rfl⟩ := Int.eq_ofNat_of_zero_le hn
  exact ⟨count, rfl, by exact_mod_cast h⟩

theorem checkEntries_error {h : Heap} {arena : Arena} {entries : List (Value × Value)} {e : Error}
    (he : checkEntries h arena entries = .error e) : e.IsDecoding := by
  induction entries with
  | nil => cases he
  | cons entry rest ih =>
    unfold checkEntries at he
    split at he
    next => cases he
    next =>
      simp only [bind_eq_error] at he
      obtain hc | ⟨_, _, hr | ⟨_, _, hp⟩⟩ := he
      · exact Arena.check_error hc
      · exact ih (by simp_all)
      · cases hp
    next => cases he; trivial
    next => cases he; trivial

theorem ofValue_error {h : Heap} {arena : Arena} {v : Value} {e : Error}
    (he : Decoded.ofValue h arena v = .error e) : e.IsDecoding := by
  unfold Decoded.ofValue at he
  dsimp only at he
  split at he
  next =>
    split at he
    next =>
      rw [bind_eq_error] at he
      obtain hc | ⟨_, _, hp⟩ := he
      · exact checkEntries_error hc
      · cases hp
    next =>
      rw [bind_eq_error] at he
      obtain hc | ⟨_, _, hp⟩ := he
      · exact checkEntries_error hc
      · cases hp
    next => cases he; trivial
  next => cases he; trivial

theorem load_contained (config : Config) (r : Reader) (bytes : Bytes) :
    (Machine.run config (Cursor.start bytes)).Ensures { arena := .ofReader r }
      (fun _ m => (Arena.ofReader r).Extends m.arena) fun e _ => e.IsDecoding :=
  Machine.contained_run _ _

/-- Every accepted reference is to a registered storage that it fits. -/
theorem checkEntries_mem {h : Heap} {arena : Arena} {entries : List (Value × Value)}
    {refs : List (Text × TensorRef)} (hr : checkEntries h arena entries = .ok refs)
    {name : Text} {t : TensorRef} (ht : (name, t) ∈ refs) : arena.check t = .ok () := by
  induction entries generalizing refs with
  | nil => cases hr; cases ht
  | cons entry rest ih =>
    unfold checkEntries at hr
    split at hr
    next => cases hr; cases ht
    next name' t' rest' =>
      simp only [bind_eq_ok] at hr
      obtain ⟨_, hc, refs', hr', hp⟩ := hr
      cases hp
      simp only [List.mem_cons, Prod.mk.injEq] at ht
      obtain ⟨-, rfl⟩ | ht := ht
      · exact hc
      · exact ih (by simp_all) ht
    next => cases hr
    next => cases hr

theorem ofValue_mem {h : Heap} {arena : Arena} {v : Value} {d : Decoded}
    (hd : Decoded.ofValue h arena v = .ok d) {name : Text} {t : TensorRef}
    (ht : (name, t) ∈ d.refs) : arena.check t = .ok () := by
  unfold Decoded.ofValue at hd
  dsimp only at hd
  split at hd
  next =>
    split at hd
    next =>
      rw [bind_eq_ok] at hd
      obtain ⟨refs, hr, hp⟩ := hd
      cases hp
      exact checkEntries_mem hr ht
    next =>
      rw [bind_eq_ok] at hd
      obtain ⟨refs, hr, hp⟩ := hd
      cases hp
      exact checkEntries_mem hr ht
    next => cases hd
  next => cases hd

namespace Arena

/-- What has been read of a storage is the buffer at its place. -/
theorem buffer_storageIndex {a : Arena} {key : Text} {bytes : Bytes} (h : a.loaded.get? key = some bytes) :
    a.memory.buffer (a.storageIndex key) = bytes := by
  have found := Table.getElem?_values_idxOf a.loaded key
  rw [Memory.buffer, memory, storageIndex, List.getD_eq_getElem?_getD, found, h, Option.getD_some]

/-- Every registered storage has the size that the archive records for its member. -/
def Sized (a : Arena) : Prop :=
  ∀ key blob, a.blobs.get? key = some blob →
    ∃ size, a.reader.storageSize key = .ok size ∧ (size : Int) = blob.count * blob.dtype.size

theorem sized_ofReader (r : Reader) : (ofReader r).Sized := by
  intro key blob h
  cases h

/-- Registering storages changes nothing else. -/
theorem Resolves.exists_blobs {a b : Arena} (h : a.Resolves b) : ∃ blobs, b = { a with blobs } := by
  obtain ⟨r, blob, h⟩ := h
  unfold resolve at h
  split at h
  next =>
    split at h <;> cases h
    exact ⟨_, rfl⟩
  next =>
    rw [bind_eq_ok] at h
    obtain ⟨actual, -, h⟩ := h
    split at h <;> cases h
    exact ⟨_, rfl⟩

theorem Resolves.sized {a b : Arena} (h : a.Resolves b) (ha : a.Sized) : b.Sized := by
  obtain ⟨r, blob, h⟩ := h
  unfold resolve at h
  split at h
  next =>
    split at h <;> cases h
    exact ha
  next =>
    rw [bind_eq_ok] at h
    obtain ⟨actual, hs, h⟩ := h
    split at h
    next => cases h
    next hn =>
      cases h
      intro key blob hb
      by_cases hk : r.key = key
      · subst hk
        rw [Table.get?_insert_self] at hb
        cases hb
        exact ⟨actual, hs, not_not.1 hn⟩
      · rw [Table.get?_insert_of_ne hk] at hb
        exact ha key blob hb

theorem Extends.exists_blobs {a b : Arena} (h : a.Extends b) : ∃ blobs, b = { a with blobs } := by
  induction h with
  | refl => exact ⟨_, rfl⟩
  | tail _ h ih =>
    obtain ⟨_, rfl⟩ := h.exists_blobs
    obtain ⟨_, rfl⟩ := ih
    exact ⟨_, rfl⟩

theorem Extends.reader_eq {a b : Arena} (h : a.Extends b) : b.reader = a.reader := by
  obtain ⟨_, rfl⟩ := h.exists_blobs
  rfl

theorem Extends.loaded_eq {a b : Arena} (h : a.Extends b) : b.loaded = a.loaded := by
  obtain ⟨_, rfl⟩ := h.exists_blobs
  rfl

theorem Extends.sized {a b : Arena} (h : a.Extends b) (ha : a.Sized) : b.Sized := by
  induction h with
  | refl => exact ha
  | tail _ h ih => exact h.sized ih

theorem check_eq_ok {a : Arena} {t : TensorRef} (h : a.check t = .ok ()) :
    ∃ blob, a.blobs.get? t.storageKey = some blob ∧ blob.dtype = t.dtype ∧
      checkView t blob.count = .ok () := by
  unfold check at h
  split at h
  next => cases h
  next blob hb =>
    split at h
    next => cases h
    next hd =>
      refine ⟨blob, hb, not_not.1 hd, ?_⟩
      cases hv : checkView t blob.count with
      | error cause => rw [hv] at h; cases h
      | ok => rfl

end Arena

/-- To decode, storages are registered and none is read, and what is decoded fits them. -/
theorem Reader.extends_of_decode {config : Config} {r : Reader} {s s' : Stream} {d : Decoded}
    {arena : Arena} (h : (r.decode config).perform s = (.ok (d, arena), s')) :
    (Arena.ofReader r).Extends arena ∧ ∀ name t, (name, t) ∈ d.refs → arena.check t = .ok () := by
  rw [Reader.decode, perform_bind_eq_ok] at h
  obtain ⟨bytes, s₁, -, h⟩ := h
  have hload := load_contained config r bytes
  cases hm : Machine.load config (.ofReader r) bytes with
  | mk outcome m =>
    simp only [hm, perform_bind_eq_ok, perform_ofExcept_eq_ok] at h
    obtain ⟨⟨v, c⟩, s₂, ⟨rfl, -⟩, d', s₃, ⟨hv, -⟩, hp⟩ := h
    obtain ⟨⟨rfl, rfl⟩, -⟩ : (d' = d ∧ m.arena = arena) ∧ s₃ = s' := by
      simpa using hp
    exact ⟨hload.of_ok hm, fun name t ht => ofValue_mem hv ht⟩

/-- The value of an object stream, as a flat mapping of names to views. -/
def decodedFrom (outcome : Except Error (Value × Cursor) × Machine) : Except Error Decoded :=
  outcome.1.bind fun (v, _) => Decoded.ofValue outcome.2.heap outcome.2.arena v

/-- Decoding fails in the documented ways only, as a whole and in each of its parts: every
instruction in any state, and every constructor on any arguments. -/
theorem decoding_fails_closed (config : Config) (r : Reader) (bytes : Bytes) :
    ((∃ d, decodedFrom (Machine.load config (.ofReader r) bytes) = .ok d) ∨
      ∃ e, decodedFrom (Machine.load config (.ofReader r) bytes) = .error e ∧ e.IsDecoding) ∧
    (∀ (c : Cursor) (i : Instruction) (m : Machine),
      (Machine.execute config c i).Ensures m (fun _ _ => True) fun e _ => e.IsDecoding) ∧
    ∀ (f : Constructor) (h : Heap) (arguments : List Value) (birth : Nat) (e : Error),
      f.call h arguments birth = .error e → e.IsDecoding := by
  refine ⟨?_, fun c i m => (Machine.contained_execute i m).post fun _ _ _ => trivial,
    fun f h arguments birth e => Constructor.call_error⟩
  have hload := load_contained config r bytes
  cases hd : decodedFrom (Machine.load config (.ofReader r) bytes) with
  | ok d => exact .inl ⟨d, rfl⟩
  | error e =>
    refine .inr ⟨e, rfl, ?_⟩
    cases hr : Machine.load config (.ofReader r) bytes with
    | mk outcome m =>
      rw [hr] at hd
      cases outcome with
      | error e' =>
        cases hd
        exact hload.of_error hr
      | ok result => exact ofValue_error hd

/-- Every view of a decoded archive lies within its storage: there is a number of elements that
fills the member of the storage exactly, and no element of the view is past it. -/
theorem decoded_views_within {config : Config} {s s' : Stream} {d : Decoded}
    (h : (decode config).perform s = (.ok d, s')) :
    ∃ r s₁, Reader.openArchive.perform s = (.ok r, s₁) ∧
      ∀ name t, (name, t) ∈ d.refs →
        ∃ count : Nat, r.storageSize t.storageKey = .ok (count * t.dtype.size) ∧ t.FitsIn count := by
  rw [decode, perform_bind_eq_ok] at h
  obtain ⟨r, s₁, hopen, h⟩ := h
  rw [perform_bind_eq_ok] at h
  obtain ⟨⟨d', arena⟩, s₂, h, hd⟩ := h
  obtain ⟨rfl, -⟩ : d' = d ∧ s₂ = s' := by simpa using hd
  obtain ⟨hextends, hmem⟩ := Reader.extends_of_decode h
  have hsized := hextends.sized (Arena.sized_ofReader r)
  have hreader : arena.reader = r := hextends.reader_eq
  refine ⟨r, s₁, hopen, ?_⟩
  intro name t ht
  obtain ⟨blob, hblob, hdtype, hview⟩ := Arena.check_eq_ok (hmem name t ht)
  obtain ⟨size, hsize, hcount⟩ := hsized t.storageKey blob hblob
  obtain ⟨count, hblobCount, rfl⟩ := exists_count hcount
  rw [hblobCount] at hview
  rw [hdtype, hreader] at hsize
  exact ⟨count, hsize, Arena.fitsIn_of_checkView hview⟩

/-- Two views of one storage of six elements, of which the second is empty. -/
def sharedStorage : Graph where
  nodes := #[.text "weight", .tensor ⟨.int16, [2, 2], [1, 2], 1, 0⟩, .text "none",
    .tensor ⟨.int16, [3, 0], [1, 1], 6, 0⟩, .ordered [(0, 1), (2, 3)] []]
  memory := ⟨[[1, 0, 2, 0, 3, 0, 4, 0, 5, 0, 6, 0]]⟩

/-- The archive of the two views. -/
def sharedArchive : Stream := ((save default sharedStorage 4).perform {}).2

set_option maxRecDepth 10000 in
theorem decoded_views_within_shared :
    ∃ d s', (decode {}).perform sharedArchive = (.ok d, s') ∧ d.refs.length = 2 ∧
      ∃ r s₁, Reader.openArchive.perform sharedArchive = (.ok r, s₁) ∧
        ∀ name t, (name, t) ∈ d.refs →
          ∃ count : Nat, r.storageSize t.storageKey = .ok (count * t.dtype.size) ∧
            t.FitsIn count := by
  have hrefs : ((decode {}).perform sharedArchive).1.toOption.map (·.refs.length) = some 2 := by
    decide +kernel
  obtain ⟨d, s', decoded, two⟩ := exists_done_of_map hrefs
  exact ⟨d, s', decoded, two, decoded_views_within decoded⟩

end Archive

end Checkpoint
