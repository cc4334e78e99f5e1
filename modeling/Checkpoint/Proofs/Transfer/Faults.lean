import Checkpoint.Proofs.Archive.Twins
import Checkpoint.Proofs.Safetensors.Twins
import Checkpoint.Proofs.Transfer.Failure

/-! Loads from streams that fail.  A load that is stopped by its stream says so, in the words of the operation
that was stopped; any other load comes to what it comes to without the faults of the stream. -/

namespace Checkpoint

open Effect

/-- A failure that some operation has put into its own words. -/
def Error.IsSpoken (e : Error) : Prop := ∀ reason, e ≠ .rawStream reason

theorem Error.IsTold.isSpoken {e : Error} (h : e.IsTold) : e.IsSpoken := by
  rintro reason rfl
  exact h

/-! ### Reading -/

section Reading

variable {config : Config} {policy : Policy} {target : List Text}

theorem Error.IsFetching.isSpoken {e : Error} (h : e.IsFetching) : e.IsSpoken := by
  obtain told | rfl := h
  · exact told.isSpoken
  · nofun

theorem Effect.ReadsOr.spoken {α : Type} {x : Action α} (h : x.Fetches) : ReadsOr Error.IsSpoken x :=
  h.mono fun _ => Error.IsFetching.isSpoken

theorem checkKeys_isSpoken {loaded target skip : List Text} {e : Error}
    (failed : checkKeys loaded target skip = .error e) : e.IsSpoken := by
  obtain ⟨_, _, rfl⟩ := KeyDifference.require_eq_error failed
  nofun

theorem Archive.reads_readFor : ReadsOr Error.IsSpoken (readFor config policy target) := by
  refine Reader.reads_openArchive.fetches.spoken.bind fun r => ?_
  refine (r.reads_decode config).fetches.spoken.bind fun found => ?_
  have fetch := (found.2.reads_materializeAll
    (found.1.refs.filter fun named => policy.shares target named.1)).spoken
  dsimp only
  split
  · exact (reads_ofExcept fun _ => checkKeys_isSpoken).bind fun _ => fetch.bind fun _ => reads_pure _
  · exact fetch.bind fun _ => reads_pure _

theorem Archive.reads_loadPlain : ReadsOr Error.IsSpoken (loadPlain config) := by
  have load : (loadTensors config).Fetches :=
    Reader.reads_openArchive.fetches.bind fun r => (r.reads_decode config).fetches.bind fun found =>
      (found.2.reads_materializeAll _).bind fun _ => reads_pure _
  exact load.spoken.bind fun _ => reads_pure _

theorem Safetensors.reads_readFor : ReadsOr Error.IsSpoken (readFor config policy target) := by
  refine (reads_readHeader config).fetches.spoken.bind fun header => ?_
  have fetch := fun keys => (reads_loadPayload header keys).fetches.spoken
  dsimp only
  split
  · exact (reads_ofExcept fun _ => checkKeys_isSpoken).bind fun _ =>
      (fetch _).bind fun _ => reads_pure _
  · exact (fetch _).bind fun _ => reads_pure _

theorem Safetensors.reads_load (keys : Option (List Text)) :
    ReadsOr Error.IsSpoken (load config keys) :=
  (reads_readHeader config).fetches.spoken.bind fun header => (reads_loadPayload header keys).fetches.spoken

end Reading

/-! ### Closing -/

namespace Bench

variable {α β : Type} {action : Effect Bench α}

/-- Work that only moves on in the stream. -/
def OnlyVisits (action : Effect Bench α) : Prop :=
  ∀ b : Bench, b.stream.Visits (action.perform b).2.stream

theorem onlyVisits_onStream {E : Error → Prop} {x : Action α} (h : ReadsOr E x) :
    OnlyVisits (onStream x) := by
  intro b
  rw [perform_onStream]
  cases done : x.perform b.stream with
  | mk r s =>
    cases r with
    | ok => exact (h b.stream).of_ok done
    | error => exact ((h b.stream).of_error done).2

theorem OnlyVisits.bind {f : α → Effect Bench β} (h : OnlyVisits action) (next : ∀ a, OnlyVisits (f a)) :
    OnlyVisits (action >>= f) := by
  intro b
  have first := h b
  rw [perform_bind]
  cases done : action.perform b with
  | mk r b' =>
    rw [done] at first
    cases r with
    | ok a => exact first.trans (next a b')
    | error => exact first

theorem OnlyVisits.seekably (h : OnlyVisits action) : OnlyVisits (seekably action) := by
  refine (onlyVisits_onStream Stream.reads_canSeek).bind fun answer => ?_
  split
  · exact h
  · refine (onlyVisits_onStream (Stream.reads_read none)).bind fun bytes b => ?_
    rw [perform_instead]
    exact .refl _

end Bench

/-- Closing a stream does not fail, wherever it has been gone to. -/
theorem Stream.Visits.exists_close {S s : Stream} (h : S.Visits s)
    (closes : ∀ fault ∈ S.failing, fault.1 ≠ .close) : ∃ t, close.perform s = (.ok (), t) := by
  obtain ⟨calls, position, rfl⟩ := h
  have steady : (S.after calls S.content position).failsNext .close = false := failsNext_eq_false closes
  have called := call_eq .close (S.after calls S.content position)
  rw [if_pos (offers_close _), steady] at called
  by_cases shut : (S.after calls S.content position).closed = true
  · refine ⟨S.after calls S.content position, perform_eq_ok.2 ?_⟩
    unfold close
    rw [bind_of_ok (get_eq _), if_pos shut]
    rfl
  · rw [if_neg shut] at called
    refine ⟨{ (S.after calls S.content position).logged .close with closed := true }, perform_eq_ok.2 ?_⟩
    unfold close
    rw [bind_of_ok (get_eq _), if_neg shut]
    exact bind_of_ok called _

theorem World.closesAfter_of_onlyVisits {α : Type} {action : Effect Bench α} {w : World} {name : Text}
    {leaveOpen : Bool} (visits : Bench.OnlyVisits action)
    (closes : leaveOpen = false → ∀ fault ∈ (w.stream name).failing, fault.1 ≠ .close) :
    ClosesAfter (reading · action) (.stream name leaveOpen) w := by
  rintro _ ⟨⟩
  rw [stream_reading]
  exact (visits ⟨w.stream name, w.memory⟩).exists_close (closes rfl)

/-! ### Streams without their faults -/

namespace Stream

variable {s : Stream}

/-- The stream without its faults. -/
def whole (s : Stream) : Stream := { s with failing := [], unreadable := none }

/-- What a stream answers that is asked whether it can seek. -/
theorem seekable_eq (s : Stream) : seekable s = match s.mode with
    | .seekable =>
      if s.closed then .error .closedStream (s.logged .seekable)
      else if s.failsNext .seekable then
        .error (.rawStream (Text.ofString ("injected " ++ StreamMethod.seekable.name ++ " failure")))
          (s.logged .seekable)
      else .ok true (s.logged .seekable)
    | .forward => if s.closed then .error .closedStream s else .ok false s
    | .bare => .error .missingOperation s := by
  unfold seekable
  rw [bind_of_ok (get_eq _)]
  cases mode : s.mode with
  | seekable =>
    have offered : s.offers .seekable = true := by
      simp only [offers, mode]
    simp only [bind, EStateM.bind, call_eq, if_pos offered]
    cases s.closed <;> cases s.failsNext .seekable <;> rfl
  | forward => cases s.closed <;> rfl
  | bare => rfl

/-- A failure to answer counts as an answer, unless the stream is closed. -/
theorem perform_canSeek (s : Stream) : canSeek.perform s = match s.mode with
    | .seekable =>
      (if s.closed then .error .closedStream else .ok (!s.failsNext .seekable), s.logged .seekable)
    | .forward => (if s.closed then .error .closedStream else .ok false, s)
    | .bare => (.ok false, s) := by
  simp only [canSeek, perform, tryCatch, tryCatchThe, MonadExceptOf.tryCatch, EStateM.tryCatch, seekable_eq]
  cases s.mode <;> cases s.closed <;> cases s.failsNext .seekable <;> rfl

end Stream

/-- Work that comes to the same from two streams is in step. -/
theorem Effect.ReadsOr.inStep {α : Type} {x : Action α} {E excused : Error → Prop} {s t : Stream}
    (reads : ReadsOr E x) (same : (x.perform s).1 = (x.perform t).1) :
    Synced excused x s t fun a s' b t' => Stream.Abreast s t s' t' ∧ a = b := by
  cases left : x.perform s with
  | mk r s' =>
    have right : x.perform t = (r, (x.perform t).2) := Prod.ext (by rw [← same, left]) rfl
    cases r with
    | error e => exact inStep_of_error (perform_eq_error.1 left) (perform_eq_error.1 right)
    | ok a =>
      exact inStep_of_ok (perform_eq_ok.1 left) (perform_eq_ok.1 right)
        ⟨⟨(reads s).of_ok left, (reads t).of_ok right⟩, rfl⟩

/-! ### Archives -/

namespace Zip

open Checkpoint.Stream

end Zip

namespace FileFormat

end FileFormat

theorem Archive.perform_source (s : Stream) : (FileFormat.archive.source.perform s).1 =
    match Stream.canSeek.perform s with
      | (.ok true, t) => .ok t
      | (.ok false, t) => ((Stream.read none).perform t).1.map .ofBytes
      | (.error e, _) => .error e := by
  rw [FileFormat.source, perform_bind]
  cases Stream.canSeek.perform s with
  | mk answer t =>
    cases answer with
    | error e => rfl
    | ok answer =>
      cases answer with
      | true => rfl
      | false =>
        dsimp only
        rw [if_neg Bool.false_ne_true, perform_bind]
        cases (Stream.read none).perform t with
        | mk r u => cases r <;> rfl

/-- A result is the one that it would be, or a failure of the stream is told instead. -/
def Surfaces {α : Type} (result ideal : Except Error α) : Prop :=
  (∃ cause, result = .error (.streamFailed cause)) ∨ result = ideal

section Surfacing

variable {α β : Type} {s t : Stream}

theorem Surfaces.bind {r r' : Except Error α} (h : Surfaces r r') (f : α → Except Error β) :
    Surfaces (r >>= f) (r' >>= f) := by
  obtain ⟨cause, rfl⟩ | rfl := h
  · exact .inl ⟨cause, rfl⟩
  · exact .inr rfl

end Surfacing

section Reading

variable {config : Config} {policy : Policy} {target : List Text} {s : Stream}

end Reading

/-- What reading comes to on the stream that is read from. -/
def FileFormat.draws {α : Type} (format : FileFormat) (read : Action α) (s : Stream) : Except Error α :=
  (format.source.perform s).1 >>= fun stream => (read.perform stream).1

section Drawing

variable {α : Type} {format : FileFormat} {read : Action α} {s : Stream}

end Drawing

/-! ### In both formats -/

section Formats

variable {config : Config} {policy : Policy} {target : List Text} {s : Stream}

theorem FileFormat.reads_read (format : FileFormat) :
    ReadsOr Error.IsSpoken (format.read config policy target) := by
  cases format with
  | archive =>
    rw [Archive.read_eq]
    exact Archive.reads_readFor.bind fun _ => reads_pure _
  | safetensors =>
    rw [Safetensors.read_eq]
    exact Safetensors.reads_readFor

end Formats

/-- What is read to load all of a source. -/
def StateDict.reading (config : Config) : FileFormat → Action StateDict
  | .archive => Archive.loadPlain config
  | .safetensors => Safetensors.load config none

/-- Loads the tensors of a source in a format. -/
def StateDict.loadAs (format : FileFormat) (config : Config) (source : Endpoint) : Effect World StateDict :=
  match format with
  | .archive => loadArchive config source
  | .safetensors => loadSafetensors config source

section Loads

variable {format : FileFormat} {config : Config} {policy : Policy} {target : Module} {w : World}
  {name : Text} {leaveOpen : Bool}

theorem StateDict.yields_loadAs
    (closes : leaveOpen = false → ∀ fault ∈ (w.stream name).failing, fault.1 ≠ .close) :
    World.yields (loadAs format config (.stream name leaveOpen)) w =
      (format.draws (reading config format) (w.stream name), w.memory) := by
  cases format with
  | archive =>
    have visits : Bench.OnlyVisits (Bench.seekably (Bench.onStream (Archive.loadPlain config))) :=
      (Bench.onlyVisits_onStream Archive.reads_loadPlain).seekably
    rw [loadAs, loadArchive, World.yields_reading (World.closesAfter_of_onlyVisits visits closes),
      World.opened]
    dsimp only
    rw [Bench.yields_seekably, FileFormat.draws]
    cases (FileFormat.archive.source.perform (w.stream name)).1 with
    | error e => rfl
    | ok stream =>
      dsimp only
      rw [Bench.yields, Bench.perform_onStream]
      rfl
  | safetensors =>
    have visits : Bench.OnlyVisits (Bench.onStream (Safetensors.load config none)) :=
      Bench.onlyVisits_onStream (Safetensors.reads_load none)
    rw [loadAs, loadSafetensors,
      World.yields_reading (World.closesAfter_of_onlyVisits visits closes), World.opened]
    dsimp only
    rw [Bench.yields, Bench.perform_onStream]
    rfl

end Loads

deriving instance DecidableEq for Zip.EndRecord

end Checkpoint
