import Checkpoint.Proofs.Archive.Loading
import Checkpoint.Proofs.ReadFaults

/-! Orders of bytes.  What is kept of a storage is the same elements in the order of the host, and nothing
else would be; to turn them around twice gives them back.  A storage that is read at its recorded size has a
whole number of elements, so it can always be turned around. -/

namespace Checkpoint

theorem DType.componentSize_pos (d : DType) : 0 < d.componentSize := by
  cases d <;> decide

theorem DType.placeIn_placeIn (d : DType) (order : Archive.ByteOrder) (i : Nat) :
    d.placeIn order (d.placeIn order i) = i := by
  unfold placeIn
  split
  · rfl
  · have positive := d.componentSize_pos
    generalize d.componentSize = size at positive
    have within := Nat.mod_lt i positive
    have inside : size - 1 - i % size < size := by omega
    have group : (i / size * size + (size - 1 - i % size)) / size = i / size := by
      rw [Nat.mul_comm, Nat.mul_add_div positive, Nat.div_eq_of_lt inside, Nat.add_zero]
    rw [group, Nat.mul_comm, Nat.mul_add_mod, Nat.mod_eq_of_lt inside, Nat.sub_sub_self (by omega),
      Nat.div_add_mod]

namespace Archive

open Effect Pickle

/-! ### The same elements -/

section Elements

variable {order : ByteOrder} {d : DType} {raw bytes bytes' : Bytes}

theorem SameElements.symm (h : SameElements order d raw bytes) : SameElements order d bytes raw where
  length := h.length.symm
  place i hi := by
    have here := h.place i (h.length ▸ hi)
    have within : d.placeIn order i < raw.length := by
      by_contra past
      rw [List.getElem?_eq_getElem hi, List.getElem?_eq_none (Nat.not_lt.1 past)] at here
      cases here
    rw [h.place _ within, DType.placeIn_placeIn]

theorem SameElements.unique (h : SameElements order d raw bytes) (h' : SameElements order d raw bytes') :
    bytes = bytes' := by
  apply List.ext_getElem?
  intro i
  by_cases hi : i < raw.length
  · rw [h.place i hi, h'.place i hi]
  · rw [List.getElem?_eq_none (h.length ▸ Nat.not_lt.1 hi), List.getElem?_eq_none (h'.length ▸ Nat.not_lt.1 hi)]

/-- Only a whole number of components has the same elements in another order. -/
theorem SameElements.whole (h : SameElements order d raw bytes) (foreign : order ≠ .host) :
    raw.length % d.componentSize = 0 := by
  by_contra part
  -- Of a group that is cut off, the first byte would go to a place behind the end.
  have positive := d.componentSize_pos
  have groups := Nat.div_add_mod' raw.length d.componentSize
  have start : raw.length / d.componentSize * d.componentSize < raw.length := by omega
  have past : raw.length ≤ d.placeIn order (raw.length / d.componentSize * d.componentSize) := by
    have cut := Nat.mod_lt raw.length positive
    rw [DType.placeIn, if_neg foreign, Nat.mul_div_cancel _ positive, Nat.mul_mod_left]
    omega
  have here := h.place _ start
  rw [List.getElem?_eq_none past, List.getElem?_eq_getElem (h.length ▸ start)] at here
  cases here

theorem inHostOrder?_eq_some : inHostOrder? order d raw = some bytes ↔ SameElements order d raw bytes := by
  refine ⟨sameElements_of_inHostOrder, fun h => ?_⟩
  have kept : ∃ bytes', inHostOrder? order d raw = some bytes' := by
    by_cases host : order = .host
    · exact ⟨raw, if_pos host⟩
    · exact exists_inHostOrder_of_components order (h.whole host)
  obtain ⟨bytes', ordered⟩ := kept
  rw [ordered, (sameElements_of_inHostOrder ordered).unique h]

theorem byteswap?_eq_some : d.byteswap? raw = some bytes ↔ SameElements .big d raw bytes := by
  rw [← inHostOrder?_eq_some]
  rfl

theorem exists_byteswap (whole : d.size ∣ raw.length) : ∃ bytes, d.byteswap? raw = some bytes :=
  exists_inHostOrder .big whole

theorem byteswap?_byteswap? (h : d.byteswap? raw = some bytes) : d.byteswap? bytes = some raw :=
  byteswap?_eq_some.2 (byteswap?_eq_some.1 h).symm

end Elements

/-! ### Storages that are read whole -/

namespace Reader

/-- A record can be read as such bytes from some place of a stream. -/
def CanGive (r : Reader) (S : Stream) (name : Text) (data : Bytes) : Prop :=
  ∃ s t, S.Visits s ∧ (r.readRecord name).perform s = (.ok data, t)

/-- A record is read as such bytes from every place of a stream. -/
def Gives (r : Reader) (S : Stream) (name : Text) (data : Bytes) : Prop :=
  ∀ s, S.Visits s → ∃ t, (r.readRecord name).perform s = (.ok data, t)

/-- Storages that can be read are read at their recorded sizes. -/
def ReadsWhole (r : Reader) (S : Stream) : Prop :=
  ∀ key raw, r.CanGive S (storageRecord key) raw → r.storageSize key = .ok raw.length

end Reader

theorem ne_unevenBuffer_of_tells {α : Type} {x : Action α} (h : x.Tells) (s t : Stream) :
    x.perform s ≠ (.error .unevenBuffer, t) :=
  fun failed => ((h s).of_error failed).1

namespace Arena

variable {a : Arena} {S s t : Stream}

theorem storage_ne_unevenBuffer (sized : a.Sized) (whole : a.reader.ReadsWhole S) (hs : S.Visits s)
    (key : Text) : (a.storage key).perform s ≠ (.error .unevenBuffer, t) := by
  intro failed
  unfold storage at failed
  split at failed
  · cases failed
  · next blob registered =>
    split at failed
    · cases failed
    · obtain unread | ⟨raw, u, read, unordered⟩ := perform_bind_eq_error.1 failed
      · refine ne_unevenBuffer_of_tells ?_ s t unread
        exact (reads_ofExcept fun _ => storage_error).bind fun _ => a.reader.reads_readRecord _
      · obtain ⟨_, v, present, given⟩ := perform_bind_eq_ok.1 read
        obtain ⟨-, rfl⟩ := perform_ofExcept_eq_ok.1 present
        have elements := size_dvd_of_sized sized registered (whole key raw ⟨_, u, hs, given⟩)
        obtain ⟨bytes, ordered⟩ := exists_inHostOrder a.reader.byteOrder elements
        cases unordered.symm.trans (perform_inHostOrder.2 ⟨bytes, ordered, rfl⟩)

theorem materialize_ne_unevenBuffer (sized : a.Sized) (whole : a.reader.ReadsWhole S) (hs : S.Visits s)
    (ref : TensorRef) : (a.materialize ref).perform s ≠ (.error .unevenBuffer, t) := by
  intro failed
  obtain unfit | ⟨_, u, checked, rest⟩ := perform_bind_eq_error.1 failed
  · exact ne_unevenBuffer_of_tells (reads_ofExcept fun _ he => (check_error he).isTold) s t unfit
  · obtain ⟨-, rfl⟩ := perform_ofExcept_eq_ok.1 checked
    obtain unread | ⟨_, v, _, outside⟩ := perform_bind_eq_error.1 rest
    · exact storage_ne_unevenBuffer sized whole hs _ unread
    · refine ne_unevenBuffer_of_tells ?_ v t outside
      exact (reads_ofExcept fun _ he => Tensor.requireWithin_error he).bind fun _ => reads_pure _

theorem materializeAll_ne_unevenBuffer (sized : a.Sized) (whole : a.reader.ReadsWhole S) (hs : S.Visits s)
    (refs : List (Text × TensorRef)) : (a.materializeAll refs).perform s ≠ (.error .unevenBuffer, t) := by
  induction refs generalizing a s with
  | nil => nofun
  | cons named refs ih =>
    intro failed
    obtain first | ⟨⟨tensor, c⟩, u, made, others⟩ := perform_bind_eq_error.1 failed
    · exact materialize_ne_unevenBuffer sized whole hs _ first
    · obtain rest | ⟨_, _, _, ⟨⟩⟩ := perform_bind_eq_error.1 others
      obtain ⟨-, _, _, fetched, -⟩ := (perform_materialize_eq_ok sized).1 made
      have fills := fetched.fills
      have visits := hs.trans ((a.reads_materialize named.2 s).of_ok made)
      exact ih (fills.sized sized) (fills.reader ▸ whole) visits rest

end Arena

/-- No storage of an archive that is loaded is uneven, unless its member is read at another size. -/
theorem load_ne_unevenBuffer {config : Config} {S u : Stream}
    (whole : ∀ r s, Reader.openArchive.perform S = (.ok r, s) → r.ReadsWhole S) :
    (load config).perform S ≠ (.error .unevenBuffer, u) := by
  intro failed
  obtain loading | ⟨_, _, _, ⟨⟩⟩ := perform_bind_eq_error.1 failed
  obtain unopened | ⟨r, s, opened, rest⟩ := perform_bind_eq_error.1 loading
  · exact ne_unevenBuffer_of_tells Reader.reads_openArchive S u unopened
  obtain undecoded | ⟨⟨d, arena⟩, t, decoded, rest'⟩ := perform_bind_eq_error.1 rest
  · exact ne_unevenBuffer_of_tells (Reader.reads_decode config r) s u undecoded
  obtain unmade | ⟨_, _, _, ⟨⟩⟩ := perform_bind_eq_error.1 rest'
  have extended := (Reader.extends_of_decode decoded).1
  have hs : S.Visits s := (Reader.reads_openArchive S).of_ok opened
  have ht : s.Visits t := (Reader.reads_decode config r s).of_ok decoded
  exact Arena.materializeAll_ne_unevenBuffer (extended.sized (Arena.sized_ofReader r))
    (extended.reader_eq ▸ whole r s opened) (hs.trans ht) _ unmade

end Archive

end Checkpoint
