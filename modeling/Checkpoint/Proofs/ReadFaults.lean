import Checkpoint.Transfer
import Checkpoint.Proofs.Archive.Decoding
import Checkpoint.Proofs.Stream

/-! Reading and its failures.  Whatever is wrong with a source, reading it does not fail as a comparison with
the target does, and an operation tells of a failure of the stream in its own words.  A stream that has
been read is as it was but for its position and its log. -/

namespace Checkpoint

open Effect Pickle

/-- Any failure but those of shapes and of names that differ, and of buffers that cannot be swapped. -/
def Error.IsReading : Error → Prop
  | .shapeMismatch .. | .stateMismatch .. | .unevenBuffer => False
  | _ => True

/-- A failure of reading in the words of the operation that reads. -/
def Error.IsTold : Error → Prop
  | .shapeMismatch .. | .stateMismatch .. | .unevenBuffer | .rawStream _ => False
  | _ => True

/-- A failure of reading storages, which may be that one cannot be swapped. -/
def Error.IsFetching (e : Error) : Prop := e.IsTold ∨ e = .unevenBuffer

theorem Error.IsTold.isReading {e : Error} (h : e.IsTold) : e.IsReading := by
  cases e with
  | shapeMismatch | stateMismatch | unevenBuffer => exact h
  | _ => trivial

theorem Error.IsDecoding.isTold {e : Error} (h : e.IsDecoding) : e.IsTold := by
  cases e with
  | shapeMismatch | stateMismatch | unevenBuffer | rawStream => exact h
  | _ => trivial

namespace Stream

variable {s t u : Stream}

/-- The same stream at any place, after any calls. -/
def Visits (s t : Stream) : Prop := ∃ calls position, t = s.after calls s.content position

theorem Visits.refl (s : Stream) : s.Visits s := ⟨s.calls, s.position, rfl⟩

theorem Visits.trans (h : s.Visits t) (h' : t.Visits u) : s.Visits u := by
  obtain ⟨_, _, rfl⟩ := h
  obtain ⟨calls, position, rfl⟩ := h'
  exact ⟨calls, position, rfl⟩

end Stream

namespace Effect

variable {α β : Type} {x : Action α} {E E' : Error → Prop} {s : Stream}

/-- An action that only moves on in its stream, and fails in such a way if at all. -/
def ReadsOr (E : Error → Prop) (x : Action α) : Prop :=
  ∀ s : Stream, x.Ensures s (fun _ t => s.Visits t) fun e t => E e ∧ s.Visits t

abbrev Reads (x : Action α) : Prop := ReadsOr Error.IsReading x

abbrev Tells (x : Action α) : Prop := ReadsOr Error.IsTold x

abbrev Fetches (x : Action α) : Prop := ReadsOr Error.IsFetching x

theorem ReadsOr.mono (h : ReadsOr E x) (weaker : ∀ e, E e → E' e) : ReadsOr E' x :=
  fun s => (h s).mono (fun _ _ h => h) fun e _ h => ⟨weaker e h.1, h.2⟩

theorem ReadsOr.fetches (h : x.Tells) : x.Fetches := h.mono fun _ => .inl

theorem ReadsOr.bind {f : α → Action β} (h : ReadsOr E x) (next : ∀ a, ReadsOr E (f a)) :
    ReadsOr E (x >>= f) := by
  intro s
  rw [ensures_bind]
  apply (h s).post
  intro a t visits
  exact (next a t).mono (fun _ _ h => visits.trans h) fun _ _ h => ⟨h.1, visits.trans h.2⟩

theorem reads_pure (a : α) : ReadsOr E (pure a) := fun s => (ensures_pure a).2 (.refl s)

theorem reads_get : ReadsOr E get := fun s => ensures_get.2 (.refl s)

theorem reads_modify {f : Stream → Stream} (h : ∀ s : Stream, s.Visits (f s)) : ReadsOr E (modify f) :=
  fun s => (ensures_modify f).2 (h s)

theorem reads_throw {e : Error} (h : E e) : ReadsOr E (throw e : Action α) :=
  fun s => (ensures_throw e).2 ⟨h, .refl s⟩

theorem reads_ofExcept {r : Except Error α} (h : ∀ e, r = .error e → E e) : ReadsOr E (ofExcept r) :=
  fun s => ensures_ofExcept (fun _ _ => .refl s) fun e he => ⟨h e he, .refl s⟩

theorem ReadsOr.tryCatch {handle : Error → Action α} (h : ReadsOr E x)
    (handled : ∀ e, E e → ReadsOr E' (handle e)) : ReadsOr E' (tryCatch x handle) := by
  intro s
  rw [ensures_tryCatch]
  apply (h s).mono
  · exact fun _ _ visits => visits
  · intro e t ⟨he, visits⟩
    exact (handled e he t).mono (fun _ _ h => visits.trans h) fun _ _ h => ⟨h.1, visits.trans h.2⟩

theorem ReadsOr.describing (h : x.Reads) (describe : Text → StreamError) :
    Tells (describing describe x) :=
  h.tryCatch fun e he => by
    split
    · exact reads_throw trivial
    · next other =>
      refine reads_throw ?_
      cases e with
      | rawStream reason => exact other reason rfl
      | shapeMismatch | stateMismatch | unevenBuffer => exact he
      | _ => trivial

/-- A check in front of an action. -/
theorem reads_unless {p : Prop} [Decidable p] {e : Error} {f : PUnit → Action α} (he : E e)
    (h : ReadsOr E (f ⟨⟩)) : ReadsOr E (if p then throw e >>= f else f ⟨⟩) := by
  split
  · exact (reads_throw he).bind fun _ => h
  · exact h

theorem reads_ite {p : Prop} [Decidable p] {x y : Action α} (hx : ReadsOr E x) (hy : ReadsOr E y) :
    ReadsOr E (if p then x else y) := by
  split
  · exact hx
  · exact hy

end Effect

/-! ### Streams -/

namespace Stream

theorem reads_call (m : StreamMethod) : (call m).Reads := by
  intro s
  have logged : s.Visits { s with calls := m :: s.calls } := ⟨m :: s.calls, s.position, rfl⟩
  unfold call
  rw [ensures_bind, ensures_get]
  dsimp only
  split
  · rw [ensures_bind, ensures_set]
    split
    · rw [ensures_bind, ensures_throw]
      exact ⟨trivial, logged⟩
    · split
      · rw [ensures_throw]
        exact ⟨trivial, logged⟩
      · exact (ensures_pure _).2 logged
  · rw [ensures_bind, ensures_throw]
    exact ⟨trivial, .refl s⟩

theorem readFault?_isReading {s : Stream} {size : Nat} {e : Error} (h : s.readFault? size = some e) :
    e.IsReading := by
  unfold readFault? at h
  split at h
  · cases h
    trivial
  · split at h
    · cases h
      trivial
    · cases h

theorem reads_read (size : Option Nat) : (read size).Reads := by
  refine (reads_call _).bind fun _ s => ?_
  rw [ensures_bind, ensures_get]
  dsimp only
  have rest (data : Bytes) : (if s.blocks s.position (s.position + data.length) = true then
      throw (.rawStream "injected bad region") >>= fun _ : PUnit => do
        set { s with position := s.position + data.length }
        pure data
    else do
      set { s with position := s.position + data.length }
      pure data : Action Bytes).Ensures s (fun _ t => s.Visits t)
        fun e t => e.IsReading ∧ s.Visits t := by
    split
    · rw [ensures_bind, ensures_throw]
      exact ⟨trivial, .refl s⟩
    · rw [ensures_bind, ensures_set]
      exact (ensures_pure _).2 ⟨s.calls, _, rfl⟩
  split
  · next fault met =>
    obtain ⟨n, -, met⟩ := Option.bind_eq_some_iff.1 met
    rw [ensures_bind, ensures_throw]
    exact ⟨readFault?_isReading met, .refl s⟩
  · exact rest _

theorem isReading_refusal (s : Stream) : s.refusal.IsReading := by
  unfold refusal
  split <;> trivial

theorem reads_goto (position : Stream → Nat) :
    (modify fun s => { s with position := position s } : Action Unit).Reads :=
  reads_modify fun s => ⟨s.calls, position s, rfl⟩

theorem reads_seek (position : Int) : (seek position).Reads := by
  refine (reads_call _).bind fun _ => ?_
  dsimp only
  split
  · refine reads_get.bind fun s => (reads_throw (isReading_refusal s)).bind fun _ => ?_
    exact reads_unless (by trivial) (reads_goto _)
  · exact reads_unless (by trivial) (reads_goto _)

theorem reads_seekFromEnd (back : Nat) : (seekFromEnd back).Reads := by
  refine (reads_call _).bind fun _ => reads_get.bind fun s => ?_
  dsimp only
  exact reads_unless (isReading_refusal s)
    ((reads_goto _).bind fun _ => reads_get.bind fun _ => reads_pure _)

theorem reads_tell : tell.Reads := (reads_call _).bind fun _ => reads_get.bind fun _ => reads_pure _

theorem reads_seekable : seekable.Reads := by
  refine reads_get.bind fun s => ?_
  split
  · exact (reads_call _).bind fun _ => reads_pure _
  · split
    · exact reads_throw trivial
    · exact reads_pure _
  · exact reads_throw trivial

theorem reads_canSeek : canSeek.Reads := by
  refine reads_seekable.tryCatch fun e he => ?_
  split
  · exact reads_pure _
  · exact reads_pure _
  · exact reads_throw he

end Stream

/-! ### Limits of tensors -/

theorem Shape.require_error {numbers shape : List Nat} {e : Error}
    (h : Shape.require numbers shape = .error e) : e.IsTold := by
  unfold Shape.require at h
  split at h
  · cases h
    trivial
  · split at h
    · cases h
    · cases h
      trivial

theorem Shape.requireContiguous_error {shape : List Nat} {e : Error}
    (h : Shape.requireContiguous shape = .error e) : e.IsTold := by
  rw [Shape.requireContiguous, bind_eq_error] at h
  obtain h | ⟨_, -, h⟩ := h
  · exact Shape.require_error h
  · split at h
    · cases h
      trivial
    · cases h

theorem Tensor.requireWithin_error {t : Tensor} {held : Nat} {e : Error}
    (h : t.requireWithin held = .error e) : e.IsTold := by
  rw [Tensor.requireWithin, bind_eq_error] at h
  obtain h | ⟨_, -, h⟩ := h
  · exact Shape.require_error h
  · split at h
    · cases h
      trivial
    · cases h

/-! ### Archives -/

namespace Zip

open Checkpoint.Stream

theorem decodeName_error {flags : Nat} {bytes : Bytes} {e : Error}
    (h : decodeName flags bytes = .error e) : e.IsTold := by
  unfold decodeName at h
  split at h
  · split at h
    · cases h
    · cases h
      trivial
  · cases h

theorem parseEntries_error {shift : Int} {left : Nat} {bytes : Bytes} {e : Error}
    (h : parseEntries shift left bytes = .error e) : e.IsTold := by
  fun_induction parseEntries shift left bytes with
  | case1 => cases h
  | case2 =>
    cases h
    trivial
  | case3 left bytes _ _ nameLength extraLength commentLength flags rest ih =>
    rw [bind_eq_error] at h
    obtain h | ⟨fullName, -, h⟩ := h
    · exact decodeName_error h
    · dsimp only at h
      split at h
      · cases h
        trivial
      · split at h
        · rw [bind_eq_error] at h
          obtain h | ⟨_, -, h⟩ := h
          · exact ih h
          · cases h
        · cases h
          trivial

/-- Whether a place can be gone to; a failure says that it cannot. -/
theorem reads_reaches (fromEnd : Nat) : (tryCatch (do let _ ← seekFromEnd fromEnd; pure true) fun
    | .rawStream _ => pure false
    | e => throw e : Action Bool).Reads := by
  refine ReadsOr.tryCatch ((reads_seekFromEnd _).bind fun _ => reads_pure _) fun e he => ?_
  split
  · exact reads_pure _
  · exact reads_throw he

theorem reads_preferLong (short : EndRecord) (fromEnd : Nat) : (preferLong short fromEnd).Reads := by
  refine (reads_reaches _).bind fun found => ?_
  split
  · refine (reads_read _).bind fun locator => ?_
    split
    · exact reads_pure _
    · split
      · exact reads_pure _
      · refine (reads_seekFromEnd _).bind fun _ => (reads_read _).bind fun record => ?_
        split
        · exact reads_pure _
        · split <;> exact reads_pure _
  · exact reads_pure _

theorem reads_findEndRecord : findEndRecord.Reads := by
  refine (reads_seekFromEnd _).bind fun _ => reads_tell.bind fun size => ?_
  refine (reads_seekFromEnd _).bind fun _ => (reads_read _).bind fun tail => ?_
  split
  · exact reads_preferLong _ _
  · refine (reads_seek _).bind fun _ => (reads_read _).bind fun data => ?_
    split
    · exact reads_pure _
    · dsimp only
      split
      · exact reads_pure _
      · exact reads_preferLong _ _

/-- A stream that cannot be read up to its end record is taken for none of an archive. -/
theorem reads_endRecord : (tryCatch findEndRecord fun
    | .rawStream _ => throw notAnArchive
    | e => throw e : Action (Option EndRecord)).Reads := by
  refine reads_findEndRecord.tryCatch fun e he => ?_
  split
  · exact reads_throw trivial
  · exact reads_throw he

theorem reads_readDirectory : readDirectory.Reads := by
  refine reads_endRecord.bind fun record => ?_
  split
  · exact reads_throw trivial
  · refine reads_unless (by trivial) ((reads_seek _).bind fun _ => (reads_read _).bind fun data => ?_)
    exact (reads_ofExcept fun _ h => (parseEntries_error h).isReading).bind fun _ => reads_pure _

theorem reads_readAt (position : Int) (size : Nat) : (readAt position size).Reads :=
  (reads_seek _).bind fun _ => (reads_read _).bind fun _ => reads_tell.bind fun _ => reads_pure _

theorem reads_openEntry (e : Entry) (limit : Int) : (openEntry e limit).Reads := by
  -- What follows the extra field, which is read only if there is one.
  have last (place : Nat) (name : Bytes) (flags : Nat) : (do
      let headerName ← Effect.ofExcept (decodeName flags name)
      if headerName ≠ e.fullName then throw (corrupt e (.nameDiffers e.fullName name))
      if limit < place + e.storedSize then throw (corrupt e (.overlap e.fullName))
      if hasFlag e.flags 1 then throw .encryptedMember
      if e.method ≠ 0 then throw .unsupportedMember
      let _ ← Stream.seekable
      return { entry := e, dataStart := place } : Action Opened).Reads := by
    refine (reads_ofExcept fun _ h => (decodeName_error h).isReading).bind fun headerName => ?_
    dsimp only
    refine reads_unless (by trivial) (reads_unless (by trivial) (reads_unless (by trivial) ?_))
    exact reads_unless (by trivial) (reads_seekable.bind fun _ => reads_pure _)
  refine (reads_readAt _ _).bind fun header => ?_
  refine reads_unless (by trivial) (reads_unless (by trivial) ?_)
  refine (reads_readAt _ _).bind fun name => ?_
  dsimp only
  refine reads_ite ?_ ((reads_readAt _ _).bind fun extra => ?_)
  · exact (reads_pure _).bind fun place => reads_unless (by trivial) (last place _ _)
  · exact (reads_pure _).bind fun place => reads_unless (by trivial) (last place _ _)

theorem reads_fetch (o : Opened) (need : Nat) : (o.fetch need).Reads := by
  unfold Opened.fetch
  split
  · exact reads_pure _
  · dsimp only
    split
    · refine (reads_pure _).bind fun data => reads_unless (by trivial) ?_
      exact reads_unless (by trivial) (reads_pure _)
    · refine (reads_readAt _ _).bind fun found => (reads_pure _).bind fun data => ?_
      exact reads_unless (by trivial) (reads_unless (by trivial) (reads_pure _))

theorem reads_readAll (o : Opened) : o.readAll.Reads :=
  (reads_fetch _ _).bind fun _ => reads_pure _

theorem reads_readRange (o : Opened) (offset : Int) (size : Option Nat) :
    (o.readRange offset size).Reads := by
  refine (reads_fetch _ _).bind fun o => ?_
  split
  · exact (reads_readAll _).bind fun _ => reads_pure _
  · exact (reads_fetch _ _).bind fun _ => reads_pure _

end Zip

namespace Archive

theorem findRoot_error {members : Table Text (Zip.Entry × Int)} {e : Error}
    (h : findRoot members = .error e) : e.IsTold := by
  unfold findRoot at h
  dsimp only at h
  split at h
  · cases h
    trivial
  · split at h
    · cases h
      trivial
    · cases h
  · cases h
    trivial

namespace Reader

theorem entry_error {r : Reader} {name : Text} {e : Error} (h : r.entry name = .error e) :
    e.IsTold := by
  unfold entry at h
  split at h
  · cases h
  · cases h
    trivial

theorem reads_readRange (r : Reader) (name : Text) (offset : Int) (size : Option Int) :
    (r.readRange name offset size).Tells := by
  refine (reads_ofExcept fun _ => entry_error).bind fun found => ?_
  exact ((Zip.reads_openEntry _ _).bind fun _ => Zip.reads_readRange _ _ _).describing _

theorem reads_readRecord (r : Reader) (name : Text) : (r.readRecord name).Tells :=
  r.reads_readRange _ _ _

theorem reads_readVersion (r : Reader) : r.readVersion.Tells := by
  unfold readVersion
  split
  · exact reads_throw trivial
  · refine (r.reads_readRecord _).bind fun raw => ?_
    split
    · exact reads_throw trivial
    · exact reads_unless (by trivial) (reads_pure _)

theorem reads_readByteOrder (r : Reader) : r.readByteOrder.Tells := by
  unfold readByteOrder
  split
  · refine (r.reads_readRecord _).bind fun raw => ?_
    split
    · exact reads_pure _
    · exact reads_throw trivial
  · exact reads_pure _

theorem reads_openArchive : openArchive.Tells := by
  refine (Zip.reads_readDirectory.describing _).bind fun directory => ?_
  refine (reads_ofExcept fun _ => findRoot_error).bind fun root => ?_
  refine (reads_readVersion _).bind fun version => ?_
  exact (reads_readByteOrder _).bind fun byteOrder => reads_pure _

theorem reads_decode (config : Config) (r : Reader) : (r.decode config).Tells := by
  refine (r.reads_readRecord _).bind fun bytes => ?_
  have loading := load_contained config r bytes
  cases loaded : Machine.load config (.ofReader r) bytes with
  | mk outcome m =>
    refine (reads_ofExcept ?_).bind fun result => ?_
    · rintro e rfl
      exact (loading.of_error loaded).isTold
    · exact (reads_ofExcept fun e he => (ofValue_error he).isTold).bind fun _ => reads_pure _

end Reader

namespace Arena

theorem storage_error {r : Reader} {key : Text} {e : Error} (h : r.requireStorage key = .error e) :
    e.IsTold := by
  unfold Reader.requireStorage at h
  split at h
  · cases h
  · cases h
    trivial

theorem reads_storage (a : Arena) (key : Text) : (a.storage key).Fetches := by
  unfold storage
  split
  · exact reads_throw (.inl trivial)
  · split
    · exact reads_pure _
    · have raw : (a.reader.readStorage key).Tells :=
        (reads_ofExcept fun _ => storage_error).bind fun _ => a.reader.reads_readRecord _
      refine raw.fetches.bind fun bytes => ?_
      dsimp only
      split
      · exact (reads_pure _).bind fun _ => reads_pure _
      · split
        · exact (reads_pure _).bind fun _ => reads_pure _
        · exact (reads_throw (.inr rfl)).bind fun _ => reads_pure _

theorem reads_materialize (a : Arena) (t : TensorRef) : (a.materialize t).Fetches := by
  refine (reads_ofExcept fun _ he => .inl (check_error he).isTold).bind fun _ => ?_
  refine (a.reads_storage _).bind fun found => ?_
  exact (reads_ofExcept fun _ he => .inl (Tensor.requireWithin_error he)).bind fun _ => reads_pure _

theorem reads_materializeAll (a : Arena) (refs : List (Text × TensorRef)) :
    (a.materializeAll refs).Fetches := by
  induction refs generalizing a with
  | nil => exact reads_pure _
  | cons ref refs ih =>
    exact (a.reads_materialize _).bind fun found => (ih _).bind fun _ => reads_pure _

end Arena

end Archive

/-! ### Safetensors -/

namespace Safetensors

open Checkpoint.Stream

theorem reads_readPart (size : Nat) : (readPart size).Tells := (reads_read _).describing _

theorem reads_remaining : remaining.Tells := by
  refine ReadsOr.describing (reads_seekable.bind fun answer => ?_) _
  split
  · refine reads_tell.bind fun _ => (reads_seekFromEnd _).bind fun _ => ?_
    exact (reads_seek _).bind fun _ => reads_pure _
  · exact reads_pure _

/-- A header may fail to be decoded for many reasons, none of them a comparison with a target. -/
def Sifted {α : Type} (x : Except Error α) : Prop := Gives x (fun _ => True) Error.IsTold

theorem Sifted.bind {α β : Type} {x : Except Error α} {f : α → Except Error β} (h : Sifted x)
    (next : ∀ a, Sifted (f a)) : Sifted (x >>= f) :=
  Gives.bind h fun a _ => next a

theorem sifted_malformed {α : Type} (x : Except HeaderError α) :
    Sifted (x.mapError .malformedHeader) := by
  cases x <;> trivial

theorem sifted_ofJson (name : Text) (v : Json.Value) : Sifted (Entry.ofJson name v) := by
  unfold Entry.ofJson
  split
  · refine (sifted_malformed _).bind fun found => ?_
    dsimp only
    split
    · split
      · trivial
      · split
        · split
          · trivial
          · split <;> trivial
        · trivial
    · trivial
  · trivial

theorem sifted_textPairs (pairs : List (Json.Value × Json.Value)) : Sifted (textPairs pairs) := by
  fun_induction textPairs pairs with
  | case1 => trivial
  | case2 _ _ _ ih => exact ih.bind fun _ => trivial
  | case3 => trivial

theorem sifted_enterAll (h : Header) (fields : List (Text × Json.Value)) :
    Sifted (fields.foldlM Header.enter h) := by
  induction fields generalizing h with
  | nil => trivial
  | cons field fields ih =>
    have entered : Sifted (h.enter field) := by
      unfold Header.enter
      dsimp only
      split
      · split
        · exact (sifted_textPairs _).bind fun _ => trivial
        · trivial
      · exact (sifted_ofJson _ _).bind fun _ => trivial
    rw [List.foldlM_cons]
    exact entered.bind fun h => ih h

theorem sifted_checkSizes (entries : List Entry) : Sifted (Header.checkSizes entries) := by
  induction entries with
  | nil => trivial
  | cons e entries ih =>
    unfold Header.checkSizes
    split
    · exact ih
    · cases Decimal.isPrintable e.needed <;> trivial

theorem sifted_decode (bytes : Bytes) (payload : Option Int) : Sifted (Header.decode bytes payload) := by
  have parsed (t : Text) : Sifted (Header.ofText t) := by
    unfold Header.ofText
    split
    · trivial
    · trivial
    · trivial
    · exact sifted_enterAll _ _
    · trivial
  have valid (h : Header) : Sifted (h.validate payload) := by
    refine (sifted_checkSizes _).bind fun _ => (sifted_malformed _).bind fun covered => ?_
    split
    · trivial
    · split <;> trivial
  unfold Header.decode
  split
  · trivial
  · exact (parsed _).bind fun h => (valid h).bind fun _ => trivial

theorem reads_readHeader (config : Config) : (readHeader config).Tells := by
  refine (reads_readPart _).bind fun start => ?_
  refine reads_unless (by trivial) (reads_unless (by trivial) ?_)
  refine (reads_readPart _).bind fun bytes => ?_
  refine reads_unless (by trivial) (reads_remaining.bind fun payload => ?_)
  exact reads_ofExcept fun e failed => (sifted_decode _ _).of_error failed

theorem reads_discard (count : Nat) : (discard count).Tells := by
  induction count using Nat.strongRecOn with
  | ind count ih =>
    rw [discard]
    split
    · exact reads_pure _
    · refine (reads_readPart _).bind fun part => ?_
      split
      · exact reads_throw trivial
      · exact ih _ (by omega)

theorem reads_payloadStart : payloadStart.Tells := by
  refine ReadsOr.describing (reads_seekable.bind fun answer => ?_) _
  split
  · exact reads_tell.bind fun _ => reads_pure _
  · exact reads_pure _

theorem reads_advance (base : Option Nat) (position target : Nat) :
    (advance base position target).Tells := by
  unfold advance
  split
  · exact (reads_seek _).describing _
  · exact reads_discard _

theorem reads_readEntries (base : Option Nat) (position : Nat) (entries : List Entry) :
    (readEntries base position entries).Tells := by
  induction entries generalizing position with
  | nil => exact reads_pure _
  | cons e entries ih =>
    have rest (data : Bytes) :
        (readEntries base e.stop entries >>= fun others => pure ((e, data) :: others)).Tells :=
      (ih _).bind fun _ => reads_pure _
    have here : (readEntries base e.start (e :: entries)).Tells := by
      rw [readEntries, if_neg (not_not.2 rfl)]
      refine (reads_readPart _).bind fun data => reads_unless (by trivial) ?_
      split
      · exact (reads_ofExcept fun _ => Shape.requireContiguous_error).bind fun _ => rest data
      · exact rest data
    rw [readEntries, if_neg (not_not.2 rfl)] at here
    rw [readEntries]
    split
    · exact (reads_advance _ _ _).bind fun _ => here
    · exact here

theorem reads_loadPayload (h : Header) (keys : Option (List Text)) : (loadPayload h keys).Tells :=
  reads_payloadStart.bind fun _ => (reads_readEntries _ _ _).bind fun _ => reads_pure _

end Safetensors

end Checkpoint
