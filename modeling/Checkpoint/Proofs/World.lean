import Checkpoint.World
import Checkpoint.Proofs.Disk
import Checkpoint.Proofs.ReadFaults
import Checkpoint.Proofs.Stream
import Checkpoint.Proofs.Table

/-! Working on endpoints: what an operation has to work on, and what it leaves in the world. -/

namespace Checkpoint

open Effect

namespace Bench

variable {α : Type} {b b' : Bench} {e : Error}

theorem perform_onStream (action : Action α) (b : Bench) :
    (onStream action).perform b =
      ((action.perform b.stream).1, { b with stream := (action.perform b.stream).2 }) :=
  perform_focus

theorem perform_onMemory (action : Effect Memory α) (b : Bench) :
    (onMemory action).perform b =
      ((action.perform b.memory).1, { b with memory := (action.perform b.memory).2 }) :=
  perform_focus

theorem perform_instead (bytes : Bytes) (action : Effect Bench α) (b : Bench) :
    (instead bytes action).perform b = ((action.perform ⟨.ofBytes bytes, b.memory⟩).1,
      { b with memory := (action.perform ⟨.ofBytes bytes, b.memory⟩).2.memory }) :=
  perform_focus

variable {r : Except Error α}

theorem exists_of_onStream {action : Action α} (h : (onStream action).perform b = (r, b')) :
    ∃ t, action.perform b.stream = (r, t) ∧ b' = ⟨t, b.memory⟩ :=
  exists_of_focus h

/-- Closing the stream as an action has left it does not fail. -/
def Closes (leaveOpen : Bool) (action : Effect Bench α) (b : Bench) : Prop :=
  leaveOpen = false → ∃ t, Stream.close.perform (action.perform b).2.stream = (.ok (), t)

/-- Where closing does not fail, it changes neither the outcome nor the memory. -/
theorem perform_closing {leaveOpen : Bool} {action : Effect Bench α} (closes : Closes leaveOpen action b) :
    ∃ t, (closing leaveOpen action).perform b =
      ((action.perform b).1, ⟨t, (action.perform b).2.memory⟩) := by
  cases leaveOpen with
  | true => exact ⟨(action.perform b).2.stream, rfl⟩
  | false =>
    obtain ⟨t, closed⟩ := closes rfl
    refine ⟨t, perform_andFinally ?_⟩
    rw [perform_onStream, closed]

/-- Closing loses nothing of what has been written. -/
theorem exists_of_closing {leaveOpen : Bool} {action : Action α} {a : α}
    (h : (closing leaveOpen (onStream action)).perform b = (.ok a, b')) :
    ∃ t, action.perform b.stream = (.ok a, t) ∧ b'.stream.content = t.content := by
  cases leaveOpen with
  | true =>
    obtain ⟨t, done, rfl⟩ := exists_of_onStream h
    exact ⟨t, done, rfl⟩
  | false =>
    obtain ⟨_, performed, closed⟩ := exists_of_andFinally h
    obtain ⟨t, done, rfl⟩ := exists_of_onStream performed
    obtain ⟨u, last, rfl⟩ := exists_of_onStream closed
    exact ⟨t, done, Stream.content_close last⟩

end Bench

namespace World

variable {α : Type} {w w' : World} {e : Error} {name : Text}

/-- The stream that is worked on to read a source. -/
def opened (w : World) : Endpoint → Except Error Stream
  | .path path => (w.disk.read path).map fun content => { content, isFile := true }
  | .stream name _ => .ok (w.stream name)

theorem perform_onMemory (action : Effect Memory α) (w : World) :
    (onMemory action).perform w =
      ((action.perform w.memory).1, { w with memory := (action.perform w.memory).2 }) :=
  perform_focus

/-- Work on the memory does not touch the streams. -/
theorem streams_bind_onMemory {β : Type} (x : Effect World α) (f : α → Effect Memory β) (w : World) :
    ((x >>= fun a => onMemory (f a)).perform w).2.streams = (x.perform w).2.streams := by
  cases hx : x w with
  | error e w' => rw [perform_eq_error.2 (bind_of_error hx _), perform_eq_error.2 hx]
  | ok a w' =>
    have same : (x >>= fun a => onMemory (f a)).perform w = (onMemory (f a)).perform w' := by
      rw [perform, bind_of_ok hx]
      rfl
    rw [same, perform_onMemory, perform_eq_ok.2 hx]

theorem stream_insert (w : World) (name : Text) (s : Stream) (memory : Memory) :
    ({ w with memory, streams := w.streams.insert name s } : World).stream name = s := by
  rw [stream, Table.get?_insert_self]
  rfl

theorem isReading_of_opened {source : Endpoint} (h : w.opened source = .error e) : e.IsReading := by
  cases source with
  | stream => cases h
  | path path =>
    unfold opened Disk.read at h
    dsimp only at h
    split at h <;> cases h <;> trivial

/-- Whether a stream is left as it is after an operation; a file is the operation's own. -/
def leavesOpen : Endpoint → Bool
  | .path _ => true
  | .stream _ leaveOpen => leaveOpen

theorem reading_path (path : Text) (action : Effect Bench α) (w : World) :
    (reading (.path path) action).perform w = (Effect.ofExcept (w.disk.read path) >>= fun content =>
      withFile content action).perform w := by
  unfold reading
  rfl

theorem exists_opened_of_read {path : Text} {p : Bytes → Bool}
    (h : (w.disk.read path).toOption.any p = true) :
    ∃ content, w.opened (.path path) = .ok { content, isFile := true } ∧ p content = true := by
  rw [opened]
  cases read : w.disk.read path with
  | error e =>
    rw [read] at h
    cases h
  | ok content =>
    rw [read] at h
    exact ⟨content, rfl, h⟩

theorem perform_reading_of_error {source : Endpoint} {action : Effect Bench α}
    (h : w.opened source = .error e) : (reading source action).perform w = (.error e, w) := by
  cases source with
  | stream => cases h
  | path path =>
    rw [reading_path]
    rw [opened] at h
    cases read : w.disk.read path with
    | error =>
      rw [read] at h
      cases h
      rfl
    | ok =>
      rw [read] at h
      cases h

/-- Reading from a source is working on the stream that it is opened as. -/
theorem perform_reading {source : Endpoint} {action : Effect Bench α} {s : Stream}
    (opens : w.opened source = .ok s) (closes : Bench.Closes (leavesOpen source) action ⟨s, w.memory⟩) :
    ∃ w', (reading source action).perform w = ((action.perform ⟨s, w.memory⟩).1, w') ∧
      w'.memory = (action.perform ⟨s, w.memory⟩).2.memory := by
  cases source with
  | stream name leaveOpen =>
    cases opens
    obtain ⟨t, closed⟩ := Bench.perform_closing closes
    have performed : (reading (.stream name leaveOpen) action).perform w =
        (((Bench.closing leaveOpen action).perform ⟨w.stream name, w.memory⟩).1, {
          w with
          memory := ((Bench.closing leaveOpen action).perform ⟨w.stream name, w.memory⟩).2.memory
          streams := w.streams.insert name
            ((Bench.closing leaveOpen action).perform ⟨w.stream name, w.memory⟩).2.stream }) :=
      perform_focus
    rw [leavesOpen] at closed
    rw [closed] at performed
    exact ⟨_, performed, rfl⟩
  | path path =>
    rw [opened] at opens
    rw [reading_path]
    cases read : w.disk.read path with
    | error =>
      rw [read] at opens
      cases opens
    | ok content =>
      rw [read] at opens
      cases opens
      have performed : (withFile content action).perform w =
          ((action.perform ⟨{ content, isFile := true }, w.memory⟩).1,
            { w with memory := (action.perform ⟨{ content, isFile := true }, w.memory⟩).2.memory }) :=
        perform_focus
      exact ⟨_, performed, rfl⟩

/-- A stream that is left open is as the work on it has left it. -/
theorem stream_reading (action : Effect Bench α) (w : World) (name : Text) :
    ((reading (.stream name true) action).perform w).2.stream name =
      (action.perform ⟨w.stream name, w.memory⟩).2.stream := by
  have performed : (reading (.stream name true) action).perform w =
      ((action.perform ⟨w.stream name, w.memory⟩).1, {
        w with
        memory := (action.perform ⟨w.stream name, w.memory⟩).2.memory
        streams := w.streams.insert name (action.perform ⟨w.stream name, w.memory⟩).2.stream }) :=
    perform_focus
  rw [performed, stream_insert]

/-- A stream that is to be closed can be closed as the same work leaves it when it is to stay open. -/
def ClosesAfter (work : Endpoint → Effect World α) (source : Endpoint) (w : World) : Prop :=
  ∀ name, source = .stream name false →
    ∃ t, Stream.close.perform (((work (.stream name true)).perform w).2.stream name) = (.ok (), t)

theorem closesAfter_of_leavesOpen {source : Endpoint} (stays : leavesOpen source = true)
    (work : Endpoint → Effect World α) (w : World) : ClosesAfter work source w := by
  rintro name rfl
  cases stays

/-- Work that has been done up to its end has closed its stream. -/
theorem closesAfter_of_ok {source : Endpoint} {action : Effect Bench α} {a : α}
    (done : (reading source action).perform w = (.ok a, w')) :
    ClosesAfter (reading · action) source w := by
  rintro name rfl
  have working : (Effect.focus (fun w : World => Bench.mk (w.stream name) w.memory)
      (fun b w => { w with memory := b.memory, streams := w.streams.insert name b.stream })
      (Effect.andFinally action (Bench.onStream Stream.close))).perform w = (.ok a, w') := done
  obtain ⟨b, ended, -⟩ := exists_of_focus working
  obtain ⟨after, performed, closed⟩ := exists_of_andFinally ended
  obtain ⟨t, closed, -⟩ := Bench.exists_of_onStream closed
  refine ⟨t, ?_⟩
  rw [stream_reading, performed]
  exact closed

/-- What comes of reading from a source: either it cannot be opened, or the work on what it is opened as has
been done. -/
theorem exists_of_reading {source : Endpoint} {action : Effect Bench α} {r : Except Error α}
    (closes : ClosesAfter (reading · action) source w) (h : (reading source action).perform w = (r, w')) :
    (∃ e, w.opened source = .error e ∧ r = .error e ∧ w' = w) ∨
      ∃ opened after, w.opened source = .ok opened ∧ action.perform ⟨opened, w.memory⟩ = (r, after) ∧
        w'.memory = after.memory := by
  cases opens : w.opened source with
  | error e =>
    rw [perform_reading_of_error opens] at h
    cases h
    exact .inl ⟨e, rfl, rfl, rfl⟩
  | ok opened =>
    have closes : Bench.Closes (leavesOpen source) action ⟨opened, w.memory⟩ := by
      intro closed
      cases source with
      | path => cases closed
      | stream name leaveOpen =>
        cases opens
        cases closed
        have last := closes name rfl
        rwa [stream_reading] at last
    obtain ⟨w'', performed, memory⟩ := perform_reading opens closes
    rw [performed] at h
    cases h
    exact .inr ⟨opened, _, rfl, rfl, memory⟩

/-! ### Writing -/

/-- The stream that is worked on to write to a target. -/
def created (w : World) : Endpoint → Except Error Stream
  | .path path => (w.disk.writable path).map fun _ => {}
  | .stream name _ => .ok (w.stream name)

variable {target : Endpoint} {action : Action α} {s : Stream}

theorem writing_path (path : Text) (action : Effect Bench α) (w : World) :
    (writing (.path path) action).perform w = (Effect.ofExcept (w.disk.writable path) >>= fun place =>
      withNewFile place action).perform w := by
  unfold writing
  rfl

theorem exists_place {path : Text} (creates : w.created (.path path) = .ok s) :
    s = {} ∧ ∃ place, w.disk.writable path = .ok place := by
  rw [created] at creates
  cases writable : w.disk.writable path with
  | error =>
    rw [writable] at creates
    cases creates
  | ok place =>
    rw [writable] at creates
    cases creates
    exact ⟨rfl, place, rfl⟩

theorem perform_withNewFile (place : Place) (action : Action α) (w : World) :
    (withNewFile place (Bench.onStream action)).perform w = ((action.perform {}).1,
      { w with disk := w.disk.store place (action.perform {}).2.content }) := by
  rw [withNewFile, perform_focus, Bench.perform_onStream]

/-- Writing that leaves its stream without faults is done. -/
theorem exists_writing (creates : w.created target = .ok s)
    (does : action.Ensures s (fun _ t => t.Steady) fun _ _ => False) :
    ∃ a w', (writing target (Bench.onStream action)).perform w = (.ok a, w') := by
  obtain ⟨a, t, done, steady⟩ := does.exists_ok
  cases target with
  | path path =>
    obtain ⟨rfl, place, writable⟩ := exists_place creates
    refine ⟨a, { w with disk := w.disk.store place t.content }, ?_⟩
    rw [writing_path, writable]
    refine (perform_withNewFile place action w).trans ?_
    rw [done]
  | stream name leaveOpen =>
    cases creates
    have performed : (Bench.onStream action).perform ⟨w.stream name, w.memory⟩ =
        (.ok a, ⟨t, w.memory⟩) := by
      rw [Bench.perform_onStream, done]
    have closes : Bench.Closes leaveOpen (Bench.onStream action) ⟨w.stream name, w.memory⟩ := by
      intro _
      rw [performed]
      exact steady.exists_close
    obtain ⟨t', closed⟩ := Bench.perform_closing closes
    rw [performed] at closed
    exact ⟨a, _, perform_focus.trans (by rw [closed])⟩

/-- What has been written is found where it was to go. -/
theorem exists_of_writing {a : α} (creates : w.created target = .ok s)
    (h : (writing target (Bench.onStream action)).perform w = (.ok a, w')) :
    ∃ t left, action.perform s = (.ok a, t) ∧ w'.opened target = .ok left ∧ left.content = t.content := by
  cases target with
  | path path =>
    obtain ⟨rfl, place, writable⟩ := exists_place creates
    rw [writing_path, writable] at h
    obtain ⟨done, rfl⟩ := Prod.mk.inj ((perform_withNewFile place action w).symm.trans h)
    refine ⟨(action.perform {}).2, { content := (action.perform {}).2.content, isFile := true },
      Prod.ext done rfl, ?_, rfl⟩
    rw [opened, Disk.read_store writable]
    rfl
  | stream name leaveOpen =>
    cases creates
    obtain ⟨b, performed, rfl⟩ := exists_of_focus h
    obtain ⟨t, done, content⟩ := Bench.exists_of_closing performed
    refine ⟨t, b.stream, done, ?_, content⟩
    rw [opened, stream_insert]

end World

end Checkpoint
