import Checkpoint.Proofs.Asking
import Checkpoint.Proofs.Transfer.Faults

/-! The two ways to load all tensors of an archive.  One works on a stream as it is and keeps the metadata; the
other asks the stream first whether it can seek, closes it afterwards, and loses the metadata. -/

namespace Checkpoint

open Effect

namespace StateDict

variable {s : StateDict}

/-- The tensors of a state without what describes them. -/
def bare (s : StateDict) : StateDict := { s with metadata := none }

theorem bare_eq_self_iff : s.bare = s ↔ s.metadata = none := by
  constructor
  · intro h
    rw [← h, bare]
  · intro h
    rw [bare, ← h]

theorem map_bare_eq_self_iff {r : Except Error StateDict} :
    r.map bare = r ↔ ∀ state, r = .ok state → state.metadata = none := by
  cases r with
  | error e => exact ⟨fun _ => nofun, fun _ => rfl⟩
  | ok state =>
    constructor
    · rintro h _ ⟨⟩
      exact bare_eq_self_iff.1 (Except.ok.inj h)
    · intro h
      exact congrArg Except.ok (bare_eq_self_iff.2 (h state rfl))

end StateDict

namespace Archive

variable {config : Config} {s : Stream}

theorem fst_perform_loadPlain :
    ((loadPlain config).perform s).1 = ((load config).perform s).1.map StateDict.bare := by
  rw [load, loadPlain, perform_bind, perform_bind]
  cases (loadTensors config).perform s with
  | mk r t => cases r <;> rfl

/-- Nothing is loaded from a stream that has been closed. -/
theorem fst_perform_loadPlain_of_closed (offered : s.offers .seek = true) (closed : s.closed = true) :
    ((loadPlain config).perform s).1 = .error .closedStream := by
  have called := Stream.call_eq .seek s
  rw [if_pos offered, if_pos closed] at called
  have sought : Zip.findEndRecord s = .error .closedStream (s.logged .seek) :=
    bind_of_error (bind_of_error called _) _
  have listed : Zip.readDirectory s = .error .closedStream (s.logged .seek) := by
    refine bind_of_error ?_ _
    rw [tryCatch_of_error sought]
    rfl
  have opened : Reader.openArchive s = .error .closedStream (s.logged .seek) := by
    refine bind_of_error ?_ _
    rw [describing, tryCatch_of_error listed]
    rfl
  have loaded : loadPlain config s = .error .closedStream (s.logged .seek) :=
    bind_of_error (bind_of_error opened _) _
  rw [perform_eq_error.2 loaded]

/-- From a stream that says that it can seek, tensors are drawn as from the stream itself. -/
theorem draws_loadPlain (seeks : s.mode = .seekable) (answers : ∀ fault ∈ s.failing, fault.1 ≠ .seekable) :
    FileFormat.archive.draws (loadPlain config) s = ((loadPlain config).perform s).1 := by
  rw [FileFormat.draws, perform_source, Stream.perform_canSeek, seeks, Stream.failsNext_eq_false answers]
  cases closed : s.closed with
  | true => exact (fst_perform_loadPlain_of_closed (by simp only [Stream.offers, seeks]) closed).symm
  | false => exact (respects_loadPlain config s _ (Stream.sameButAsked_logged answers)).1

end Archive

namespace StateDict

section Loading

variable {config : Config} {w : World} {name : Text} {leaveOpen : Bool}

theorem fst_perform_loadArchive (seeks : (w.stream name).mode = .seekable)
    (answers : ∀ fault ∈ (w.stream name).failing, fault.1 ≠ .seekable)
    (closes : leaveOpen = false → ∀ fault ∈ (w.stream name).failing, fault.1 ≠ .close) :
    ((loadArchive config (.stream name leaveOpen)).perform w).1 =
      ((Archive.load config).perform (w.stream name)).1.map bare := by
  have yields : World.yields (loadAs .archive config (.stream name leaveOpen)) w =
      (FileFormat.archive.draws (Archive.loadPlain config) (w.stream name), w.memory) := yields_loadAs closes
  calc ((loadArchive config (.stream name leaveOpen)).perform w).1
      = FileFormat.archive.draws (Archive.loadPlain config) (w.stream name) := congrArg Prod.fst yields
    _ = ((Archive.loadPlain config).perform (w.stream name)).1 := Archive.draws_loadPlain seeks answers
    _ = ((Archive.load config).perform (w.stream name)).1.map bare := Archive.fst_perform_loadPlain

/-- Of an archive on a stream that says that it can seek, both loads give the same tensors or fail alike, and
only one of them gives the metadata.  So they agree just where there is none. -/
theorem loadArchive_eq_bare (seeks : (w.stream name).mode = .seekable)
    (answers : ∀ fault ∈ (w.stream name).failing, fault.1 ≠ .seekable)
    (closes : leaveOpen = false → ∀ fault ∈ (w.stream name).failing, fault.1 ≠ .close) :
    let direct := ((Archive.load config).perform (w.stream name)).1
    let loaded := ((loadArchive config (.stream name leaveOpen)).perform w).1
    loaded = direct.map bare ∧
      (loaded = direct ↔ ∀ state, direct = .ok state → state.metadata = none) := by
  refine ⟨fst_perform_loadArchive seeks answers closes, ?_⟩
  rw [fst_perform_loadArchive seeks answers closes]
  exact map_bare_eq_self_iff

end Loading

set_option maxRecDepth 100000 in
/-- What an archived module is loaded as, from the stream that it is on. -/
theorem load_archived_numbers :
    let s := (archived (numbers "a" "b" 0 1 1)).stream "s"
    (s.mode = .seekable ∧ s.failing = []) ∧ ∃ state, ((Archive.load {}).perform s).1 = .ok state ∧
      state.names = ["a", "b"] ∧ state.metadata.isSome = true := by
  intro s
  have seen : (s.mode = .seekable ∧ s.failing = []) ∧
      (((Archive.load {}).perform s).1.toOption.map fun state => (state.names, state.metadata.isSome)) =
        some ([("a" : Text), "b"], true) := by
    decide +kernel
  obtain ⟨sound, found⟩ := seen
  cases done : ((Archive.load {}).perform s).1 with
  | error e =>
    rw [done] at found
    cases found
  | ok state =>
    rw [done] at found
    obtain ⟨named, described⟩ := Prod.mk.inj (Option.some.inj found)
    exact ⟨sound, state, rfl, named, described⟩

theorem loadArchive_eq_bare_numbers :
    let w := archived (numbers "a" "b" 0 1 1)
    let direct := ((Archive.load {}).perform (w.stream "s")).1
    let loaded := ((loadArchive {} (.stream "s" false)).perform w).1
    (∃ state, direct = .ok state ∧ state.names = ["a", "b"]) ∧ loaded = direct.map bare ∧
      (loaded = direct ↔ ∀ state, direct = .ok state → state.metadata = none) := by
  obtain ⟨⟨seeks, steady⟩, state, done, named, -⟩ := load_archived_numbers
  refine ⟨⟨state, done, named⟩, loadArchive_eq_bare seeks ?_ fun _ => ?_⟩
  · rw [steady]
    exact List.forall_mem_nil _
  · rw [steady]
    exact List.forall_mem_nil _

/-- What a module saves has metadata, and one of the two loads loses it. -/
theorem loadArchive_ne_load_numbers :
    let w := archived (numbers "a" "b" 0 1 1)
    let direct := ((Archive.load {}).perform (w.stream "s")).1
    let loaded := ((loadArchive {} (.stream "s" true)).perform w).1
    loaded ≠ direct ∧ ∃ state, direct = .ok state ∧ state.metadata.isSome = true ∧ loaded = .ok state.bare := by
  intro w direct loaded
  obtain ⟨⟨seeks, steady⟩, state, done, -, described⟩ := load_archived_numbers
  have drawn : loaded = .ok state.bare := by
    calc loaded = direct.map bare := by
          refine fst_perform_loadArchive seeks ?_ nofun
          rw [steady]
          exact List.forall_mem_nil _
      _ = .ok state.bare := congrArg (Except.map bare) done
  refine ⟨fun same => ?_, state, done, described, drawn⟩
  have kept : state.bare = state := Except.ok.inj (drawn.symm.trans (same.trans done))
  rw [bare_eq_self_iff.1 kept] at described
  cases described

end StateDict

end Checkpoint
