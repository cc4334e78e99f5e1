import Checkpoint.Proofs.Twins

/-! What does not depend on how often a stream has been asked whether it can seek.  Such a question only
enters the log, and of the log only the number of earlier calls matters, for each method on its own. -/

namespace Checkpoint

namespace Effect

variable {σ α β : Type} {R : σ → σ → Prop} {x : Effect σ α}

/-- From related states an action comes to the same, and leaves related states. -/
def Respects (R : σ → σ → Prop) (x : Effect σ α) : Prop :=
  ∀ s t, R s t → (x.perform t).1 = (x.perform s).1 ∧ R (x.perform s).2 (x.perform t).2

theorem respects_pure (a : α) : Respects R (pure a) := fun _ _ h => ⟨rfl, h⟩

theorem respects_throw (e : Error) : Respects R (throw e : Effect σ α) := fun _ _ h => ⟨rfl, h⟩

theorem respects_ofExcept (r : Except Error α) : Respects R (ofExcept r) := by
  cases r with
  | ok a => exact respects_pure a
  | error e => exact respects_throw e

theorem Respects.bind {f : α → Effect σ β} (h : Respects R x) (next : ∀ a, Respects R (f a)) :
    Respects R (x >>= f) := by
  intro s t related
  obtain ⟨same, left⟩ := h s t related
  rw [perform_bind, perform_bind]
  cases first : x.perform s with
  | mk r s' =>
    have second : x.perform t = (r, (x.perform t).2) := Prod.ext (by rw [same, first]) rfl
    rw [first] at left
    rw [second]
    cases r with
    | ok a => exact next a s' _ left
    | error e => exact ⟨rfl, left⟩

theorem Respects.tryCatch {handle : Error → Effect σ α} (h : Respects R x)
    (handled : ∀ e, Respects R (handle e)) : Respects R (tryCatch x handle) := by
  intro s t related
  obtain ⟨same, left⟩ := h s t related
  cases first : x.perform s with
  | mk r s' =>
    have second : x.perform t = (r, (x.perform t).2) := Prod.ext (by rw [same, first]) rfl
    rw [first] at left
    cases r with
    | ok a =>
      rw [perform_eq_ok.2 (tryCatch_of_ok (perform_eq_ok.1 first) _),
        perform_eq_ok.2 (tryCatch_of_ok (perform_eq_ok.1 second) _)]
      exact ⟨rfl, left⟩
    | error e =>
      rw [perform, perform, tryCatch_of_error (perform_eq_error.1 first),
        tryCatch_of_error (perform_eq_error.1 second)]
      exact handled e s' _ left

theorem Respects.describing (h : Respects R x) (describe : Text → StreamError) :
    Respects R (describing describe x) :=
  h.tryCatch fun e => by split <;> exact respects_throw _

theorem respects_ite {p : Prop} [Decidable p] {x y : Effect σ α} (hx : Respects R x)
    (hy : Respects R y) : Respects R (if p then x else y) := by
  split
  · exact hx
  · exact hy

/-- A check in front of an action. -/
theorem respects_unless {p : Prop} [Decidable p] {e : Error} {f : PUnit → Effect σ α}
    (h : Respects R (f ⟨⟩)) : Respects R (if p then throw e >>= f else f ⟨⟩) :=
  respects_ite ((respects_throw e).bind fun _ => h) h

end Effect

open Effect

namespace Stream

variable {s t : Stream}

/-- The same stream but for how often it has been asked whether it can seek, which it never fails to say. -/
structure SameButAsked (s t : Stream) : Prop where
  same : ∃ calls, t = { s with calls }
  counts : ∀ m, m ≠ .seekable → t.callCount m = s.callCount m
  answers : ∀ fault ∈ s.failing, fault.1 ≠ .seekable

namespace SameButAsked

theorem offers (h : SameButAsked s t) (m : StreamMethod) : t.offers m = s.offers m := by
  obtain ⟨_, rfl⟩ := h.same
  rfl

theorem failing (h : SameButAsked s t) : t.failing = s.failing := by
  obtain ⟨_, rfl⟩ := h.same
  rfl

theorem failsNext (h : SameButAsked s t) (m : StreamMethod) : t.failsNext m = s.failsNext m := by
  by_cases hm : m = .seekable
  · subst hm
    rw [failsNext_eq_false h.answers, failsNext_eq_false (h.failing ▸ h.answers)]
  · rw [Stream.failsNext, Stream.failsNext, h.failing, h.counts m hm]

theorem logged (h : SameButAsked s t) (m : StreamMethod) : SameButAsked (s.logged m) (t.logged m) where
  same := by
    obtain ⟨_, rfl⟩ := h.same
    exact ⟨_, rfl⟩
  counts m' hm' := by
    have before := h.counts m' hm'
    simp only [callCount, Stream.logged, List.count_cons] at before ⊢
    rw [before]
  answers := h.answers

theorem placed (h : SameButAsked s t) (position : Nat) :
    SameButAsked { s with position } { t with position } where
  same := by
    obtain ⟨_, rfl⟩ := h.same
    exact ⟨_, rfl⟩
  counts := h.counts
  answers := h.answers

end SameButAsked

theorem sameButAsked_logged (answers : ∀ fault ∈ s.failing, fault.1 ≠ .seekable) :
    SameButAsked s (s.logged .seekable) where
  same := ⟨_, rfl⟩
  counts _ hm := List.count_cons_of_ne (Ne.symm hm)
  answers := answers

theorem respects_call (m : StreamMethod) : Respects SameButAsked (call m) := by
  intro s t h
  have closed : t.closed = s.closed := by
    obtain ⟨_, rfl⟩ := h.same
    rfl
  have logged := h.logged m
  simp only [perform, call_eq, h.offers, h.failsNext, closed]
  cases s.offers m with
  | false => exact ⟨rfl, h⟩
  | true => cases s.closed <;> cases s.failsNext m <;> exact ⟨rfl, logged⟩

theorem respects_seek (position : Int) : Respects SameButAsked (seek position) := by
  refine (respects_call .seek).bind fun _ => respects_ite ?_ (respects_unless ?_)
  · intro s t h
    obtain ⟨_, rfl⟩ := h.same
    exact ⟨rfl, h⟩
  · exact fun s t h => ⟨rfl, h.placed _⟩

theorem respects_seekFromEnd (back : Nat) : Respects SameButAsked (seekFromEnd back) := by
  refine (respects_call .seek).bind fun _ s t h => ?_
  have moved := h.placed (s.content.length - back)
  obtain ⟨calls, rfl⟩ := h.same
  rw [perform_bind, perform_bind, perform_get, perform_get]
  dsimp only
  split
  · exact ⟨rfl, h⟩
  · exact ⟨rfl, moved⟩

theorem respects_tell : Respects SameButAsked tell := by
  refine (respects_call .tell).bind fun _ s t h => ?_
  obtain ⟨_, rfl⟩ := h.same
  exact ⟨rfl, h⟩

theorem respects_read (size : Option Nat) : Respects SameButAsked (read size) := by
  refine (respects_call .read).bind fun _ s t h => ?_
  have moved (data : Bytes) := h.placed (s.position + data.length)
  obtain ⟨calls, rfl⟩ := h.same
  rw [perform_bind, perform_bind, perform_get, perform_get]
  have fault : size.bind { s with calls }.readFault? = size.bind s.readFault? := rfl
  dsimp only
  rw [fault]
  cases size.bind s.readFault? with
  | some fault => exact ⟨rfl, h⟩
  | none =>
    have blocks : { s with calls }.blocks = s.blocks := rfl
    dsimp only
    rw [blocks]
    cases size with
    | none | some =>
      dsimp only
      split
      · exact ⟨rfl, h⟩
      · exact ⟨rfl, moved _⟩

/-- What a stream answers that offers so much. -/
theorem respects_answer (mode : StreamMode) (closed : Bool) : Respects SameButAsked (match mode with
    | .seekable => do
      call .seekable
      return true
    | .forward => if closed then throw .closedStream else return false
    | .bare => throw .missingOperation : Action Bool) := by
  cases mode with
  | seekable => exact (respects_call .seekable).bind fun _ => respects_pure _
  | forward => exact respects_ite (respects_throw _) (respects_pure _)
  | bare => exact respects_throw _

theorem respects_seekable : Respects SameButAsked seekable := by
  intro s t h
  have asked := respects_answer s.mode s.closed s t h
  obtain ⟨_, rfl⟩ := h.same
  exact asked

end Stream

/-! ### Members of archives -/

namespace Zip

open Checkpoint.Stream

/-- Whether a place can be gone to; a failure says that it cannot. -/
theorem respects_reaches (fromEnd : Nat) : Respects SameButAsked
    (tryCatch (do let _ ← seekFromEnd fromEnd; pure true) fun
      | .rawStream _ => pure false
      | e => throw e : Action Bool) := by
  refine ((respects_seekFromEnd _).bind fun _ => respects_pure _).tryCatch fun e => ?_
  split
  · exact respects_pure _
  · exact respects_throw _

theorem respects_preferLong (short : EndRecord) (fromEnd : Nat) :
    Respects SameButAsked (preferLong short fromEnd) := by
  refine (respects_reaches _).bind fun found => respects_ite ?_ (respects_pure _)
  refine (respects_read _).bind fun locator => ?_
  refine respects_ite (respects_pure _) (respects_ite (respects_pure _) ?_)
  refine (respects_seekFromEnd _).bind fun _ => (respects_read _).bind fun record => ?_
  exact respects_ite (respects_pure _) (respects_ite (respects_pure _) (respects_pure _))

theorem respects_findEndRecord : Respects SameButAsked findEndRecord := by
  refine (respects_seekFromEnd _).bind fun _ => respects_tell.bind fun size => ?_
  refine (respects_seekFromEnd _).bind fun _ => (respects_read _).bind fun tail => ?_
  refine respects_ite (respects_preferLong _ _) ?_
  refine (respects_seek _).bind fun _ => (respects_read _).bind fun data => ?_
  split
  · exact respects_pure _
  · exact respects_ite (respects_pure _) (respects_preferLong _ _)

theorem respects_endRecord : Respects SameButAsked (tryCatch findEndRecord fun
    | .rawStream _ => throw notAnArchive
    | e => throw e : Action (Option EndRecord)) :=
  respects_findEndRecord.tryCatch fun e => by split <;> exact respects_throw _

theorem respects_readDirectory : Respects SameButAsked readDirectory := by
  refine respects_endRecord.bind fun found => ?_
  split
  · exact respects_throw _
  · refine respects_unless ((respects_seek _).bind fun _ => (respects_read _).bind fun data => ?_)
    exact (respects_ofExcept _).bind fun _ => respects_pure _

theorem respects_readAt (position : Int) (size : Nat) : Respects SameButAsked (readAt position size) :=
  (respects_seek _).bind fun _ => (respects_read _).bind fun _ => respects_tell.bind fun _ => respects_pure _

theorem respects_openEntry (e : Entry) (limit : Int) : Respects SameButAsked (openEntry e limit) := by
  -- What follows the extra field, which is read only if there is one.
  have last (place : Nat) (name : Bytes) (flags : Nat) : Respects SameButAsked (do
      let headerName ← Effect.ofExcept (decodeName flags name)
      if headerName ≠ e.fullName then throw (corrupt e (.nameDiffers e.fullName name))
      if limit < place + e.storedSize then throw (corrupt e (.overlap e.fullName))
      if hasFlag e.flags 1 then throw .encryptedMember
      if e.method ≠ 0 then throw .unsupportedMember
      let _ ← Stream.seekable
      return { entry := e, dataStart := place } : Action Opened) := by
    refine (respects_ofExcept _).bind fun headerName => respects_unless (respects_unless ?_)
    exact respects_unless (respects_unless (respects_seekable.bind fun _ => respects_pure _))
  refine (respects_readAt _ _).bind fun header => respects_unless (respects_unless ?_)
  refine (respects_readAt _ _).bind fun name => respects_ite ?_ ((respects_readAt _ _).bind fun extra => ?_)
  · exact (respects_pure _).bind fun place => respects_unless (last place _ _)
  · exact (respects_pure _).bind fun place => respects_unless (last place _ _)

theorem respects_fetch (o : Opened) (need : Nat) : Respects SameButAsked (o.fetch need) := by
  unfold Opened.fetch
  refine respects_ite (respects_pure _) (respects_ite ?_ ((respects_readAt _ _).bind fun found => ?_))
  · exact (respects_pure _).bind fun data => respects_unless (respects_unless (respects_pure _))
  · exact (respects_pure _).bind fun data => respects_unless (respects_unless (respects_pure _))

theorem respects_readRange (o : Opened) (offset : Int) (size : Option Nat) :
    Respects SameButAsked (o.readRange offset size) := by
  refine (respects_fetch _ _).bind fun o => ?_
  split
  · exact ((respects_fetch _ _).bind fun _ => respects_pure _).bind fun _ => respects_pure _
  · exact (respects_fetch _ _).bind fun _ => respects_pure _

end Zip

/-! ### Archives -/

namespace Archive

open Checkpoint.Stream Pickle

variable (config : Config) (r : Reader) (a : Arena)

theorem Reader.respects_readRecord (name : Text) : Respects SameButAsked (r.readRecord name) := by
  refine (respects_ofExcept _).bind fun found => Respects.describing ?_ _
  exact (Zip.respects_openEntry _ _).bind fun _ => Zip.respects_readRange _ _ _

theorem Reader.respects_readVersion : Respects SameButAsked r.readVersion := by
  unfold readVersion
  split
  · exact respects_throw _
  · refine (r.respects_readRecord _).bind fun raw => ?_
    split
    · exact respects_throw _
    · exact respects_unless (respects_pure _)

theorem Reader.respects_readByteOrder : Respects SameButAsked r.readByteOrder := by
  refine respects_ite ((r.respects_readRecord _).bind fun raw => ?_) (respects_pure _)
  split
  · exact respects_pure _
  · exact respects_throw _

theorem Reader.respects_openArchive : Respects SameButAsked openArchive := by
  refine (Zip.respects_readDirectory.describing _).bind fun directory => ?_
  refine (respects_ofExcept _).bind fun root => (respects_readVersion _).bind fun version => ?_
  exact (respects_readByteOrder _).bind fun byteOrder => respects_pure _

theorem Reader.respects_decode : Respects SameButAsked (r.decode config) := by
  refine (r.respects_readRecord _).bind fun bytes => ?_
  exact (respects_ofExcept _).bind fun result => (respects_ofExcept _).bind fun _ => respects_pure _

theorem Arena.respects_storage (key : Text) : Respects SameButAsked (a.storage key) := by
  unfold storage
  split
  · exact respects_throw _
  · split
    · exact respects_pure _
    · have raw : Respects SameButAsked (a.reader.readStorage key) :=
        (respects_ofExcept _).bind fun _ => a.reader.respects_readRecord _
      refine raw.bind fun bytes => respects_ite ((respects_pure _).bind fun _ => respects_pure _) ?_
      split
      · exact (respects_pure _).bind fun _ => respects_pure _
      · exact (respects_throw _).bind fun _ => respects_pure _

theorem Arena.respects_materialize (t : TensorRef) : Respects SameButAsked (a.materialize t) := by
  refine (respects_ofExcept _).bind fun _ => (a.respects_storage _).bind fun found => ?_
  exact (respects_ofExcept _).bind fun _ => respects_pure _

theorem Arena.respects_materializeAll (refs : List (Text × TensorRef)) :
    Respects SameButAsked (a.materializeAll refs) := by
  induction refs generalizing a with
  | nil => exact respects_pure _
  | cons ref refs ih =>
    exact (a.respects_materialize _).bind fun found => (ih _).bind fun _ => respects_pure _

theorem respects_loadTensors : Respects SameButAsked (loadTensors config) :=
  Reader.respects_openArchive.bind fun r => (r.respects_decode config).bind fun found =>
    (found.2.respects_materializeAll _).bind fun _ => respects_pure _

theorem respects_loadPlain : Respects SameButAsked (loadPlain config) :=
  (respects_loadTensors config).bind fun _ => respects_pure _

end Archive

end Checkpoint
