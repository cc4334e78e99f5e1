import Checkpoint.Proofs.Outcomes
import Checkpoint.Proofs.Stream

/-! Bytes at the places of a stream, with or without faults: a write that is done puts them there and
keeps what is elsewhere, and one that is not done keeps everything. -/

namespace Checkpoint

/-- The failure is one of the stream: it is closed, lacks an operation, has no such place, or gives a
reason of its own, in its own words or in those of an operation. -/
def Error.IsStreamFault : Error → Prop
  | .rawStream _ | .streamFailed _ | .closedStream | .missingOperation | .sizeOverflow => True
  | _ => False

/-- Writing fails on a stream that is closed, or for reasons of the stream's own. -/
def Error.IsWriteFault (e : Error) : Prop := e = .closedStream ∨ ∃ reason, e = .rawStream reason

theorem Error.IsWriteFault.isStreamFault {e : Error} (h : e.IsWriteFault) : e.IsStreamFault := by
  obtain rfl | ⟨_, rfl⟩ := h <;> trivial

namespace Stream

open Effect

/-- Bytes stand at a place. -/
def Stands (content : Bytes) (place : Nat) (bytes : Bytes) : Prop := bytes <+: content.drop place

/-- What stands in front of a place stands there still. -/
def Keeps (place : Nat) (content content' : Bytes) : Prop :=
  ∀ p bytes, p + bytes.length ≤ place → Stands content p bytes → Stands content' p bytes

/-- The content after a write; without data nothing is changed. -/
def inscribed (content : Bytes) (position : Nat) (data : Bytes) : Bytes :=
  if data.isEmpty then content else overwrite content position data

section Places

variable {content content' content'' a b data : Bytes} {place position : Nat}

theorem Keeps.refl (place : Nat) (content : Bytes) : Keeps place content content :=
  fun _ _ _ stands => stands

theorem Keeps.trans (h : Keeps place content content') (h' : Keeps place content' content'') :
    Keeps place content content'' :=
  fun p bytes within stands => h' p bytes within (h p bytes within stands)

end Places

section Operations

variable {s : Stream} {Q : Unit → Stream → Prop} {E : Error → Stream → Prop}

/-- A call changes only the log, also when it fails. -/
theorem ensures_called {m : StreamMethod} (hq : ∀ calls, Q () (s.after calls s.content s.position))
    (hE : ∀ e calls, e.IsWriteFault ∨ s.offers m = false ∧ e = .missingOperation →
      E e (s.after calls s.content s.position)) : (call m).Ensures s Q E := by
  unfold call
  rw [ensures_bind, ensures_get]
  dsimp only
  split
  · rw [ensures_bind, ensures_set]
    split
    · rw [ensures_bind, ensures_throw]
      exact hE _ (m :: s.calls) (.inl (.inl rfl))
    · split
      · rw [ensures_throw]
        exact hE _ (m :: s.calls) (.inl (.inr ⟨_, rfl⟩))
      · rw [ensures_pure]
        exact hq (m :: s.calls)
  · next lacking =>
    rw [ensures_bind, ensures_throw]
    exact hE _ s.calls (.inr ⟨Bool.eq_false_iff.2 lacking, rfl⟩)

theorem ensures_written {data : Bytes}
    (hq : ∀ calls, Q () (s.after calls (inscribed s.content s.position data)
      (s.position + data.length)))
    (hE : ∀ e calls, e.IsWriteFault → E e (s.after calls s.content s.position)) :
    (write data).Ensures s Q E := by
  unfold write
  rw [ensures_bind]
  apply ensures_called
  · intro calls
    have := hq calls
    rw [ensures_bind, ensures_get]
    unfold inscribed at this
    split
    · next empty =>
      rw [if_pos empty, List.isEmpty_iff.1 empty] at this
      exact (ensures_pure _).2 this
    · next full =>
      rw [if_neg full] at this
      exact (ensures_set _).2 this
  · rintro e calls (fault | ⟨lacking, -⟩)
    · exact hE e calls fault
    · rw [s.offers_write] at lacking
      cases lacking

theorem ensures_told {Q : Nat → Stream → Prop}
    (hq : ∀ calls, Q s.position (s.after calls s.content s.position))
    (hE : ∀ e calls, e.IsStreamFault → E e (s.after calls s.content s.position)) :
    tell.Ensures s Q E := by
  unfold tell
  rw [ensures_bind]
  apply ensures_called
  · intro calls
    rw [ensures_bind, ensures_get]
    exact (ensures_pure _).2 (hq calls)
  · rintro e calls (fault | ⟨-, rfl⟩)
    · exact hE e calls fault.isStreamFault
    · exact hE _ calls trivial

theorem ensures_sought {position : Nat} (hq : ∀ calls, Q () (s.after calls s.content position))
    (hE : ∀ e calls, e.IsStreamFault → E e (s.after calls s.content s.position)) :
    (seek position).Ensures s Q E := by
  unfold seek
  rw [ensures_bind]
  apply ensures_called
  · intro calls
    have natural : ¬ (position : Int) < 0 := by
      omega
    simp only [if_neg natural]
    split
    · rw [ensures_bind, ensures_throw]
      exact hE _ calls trivial
    · rw [ensures_modify]
      exact hq calls
  · rintro e calls (fault | ⟨-, rfl⟩)
    · exact hE e calls fault.isStreamFault
    · exact hE _ calls trivial

end Operations

section Faults

theorem failsBy_write (data : Bytes) : FailsBy Error.IsStreamFault (write data) :=
  fun _ => ensures_written (fun _ => trivial) fun _ _ fault => fault.isStreamFault

theorem failsBy_tell : FailsBy Error.IsStreamFault tell :=
  fun _ => ensures_told (fun _ => trivial) fun _ _ fault => fault

theorem failsBy_seek (position : Nat) : FailsBy Error.IsStreamFault (seek position) :=
  fun _ => ensures_sought (fun _ => trivial) fun _ _ fault => fault

end Faults

end Stream

end Checkpoint
