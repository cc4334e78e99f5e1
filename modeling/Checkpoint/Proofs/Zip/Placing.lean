import Checkpoint.Proofs.Outcomes
import Checkpoint.Proofs.Stream.Placing
import Checkpoint.Proofs.Zip.Writing

/-! Members at their places, on any stream.  What a member takes is written at the place where its header
is said to be, whether the stream can go back or not, and nothing in front of that place is touched. -/

namespace Checkpoint.Zip.Writer

open Checkpoint.Stream

/-- A writer that is at a place of its archive.  Places count from `origin`, which is the start of the
stream if that tells its position. -/
structure At (w : Writer) (origin place : Nat) : Prop where
  arrived : w.stream.position = origin + place
  counted : ∀ n, w.written? = some n → w.rewinds = false ∧ n = place
  absolute : w.written? = none → origin = 0

/-- The same writer at a place, with other content of its stream. -/
structure Moved (w w' : Writer) (origin place : Nat) (content : Bytes) : Prop where
  arrived : w'.At origin place
  content : w'.stream.content = content
  members : w'.members = w.members
  start : w'.directoryStart = w.directoryStart
  rewinds : w'.rewinds = w.rewinds

theorem Moved.trans {w w' w'' : Writer} {origin place place' : Nat} {content content' : Bytes}
    (h : w.Moved w' origin place content) (h' : w'.Moved w'' origin place' content') :
    w.Moved w'' origin place' content' :=
  ⟨h'.arrived, h'.content, h'.members.trans h.members, h'.start.trans h.start,
    h'.rewinds.trans h.rewinds⟩

variable {w : Writer} {origin place : Nat} {data : Bytes} {Q : Unit → Writer → Prop}

/-- A member as it is written at a place of a stream that may be able to go back. -/
def memberAt (rewinds : Bool) (name : Text) (extra content : Bytes) (headerOffset : Nat) : Member :=
  { Member.at name extra content headerOffset with described := !rewinds }

theorem writable_of_checkHeader {m : Member} (h : checkHeader m = .ok ()) : Writable m := by
  unfold checkHeader at h
  split at h
  · cases h
  · split at h
    · cases h
    · next fits =>
      rw [not_or] at fits
      exact ⟨Nat.le_of_not_lt fits.1, Nat.le_of_not_lt fits.2⟩

/-- A member has been written at a place: it is there, and what is in front of it is as before. -/
structure Placed (w w' : Writer) (origin : Nat) (m : Member) (content : Bytes) : Prop where
  arrived : w'.At origin w'.directoryStart
  members : w'.members = w.members ++ [m]
  keeps : Keeps (origin + m.headerOffset) w.stream.content w'.stream.content
  stands : Stands w'.stream.content (origin + m.headerOffset) (m.localHeader ++ content)
  behind : m.headerOffset + (m.localHeader ++ content).length ≤ w'.directoryStart

section Finish

variable {m : Member} {content : Bytes} {w₀ : Writer}
  (h : w₀.Moved w origin (m.headerOffset + m.pendingHeader.length + content.length)
    (inscribed (inscribed w₀.stream.content (origin + m.headerOffset) m.pendingHeader)
      (origin + m.headerOffset + m.pendingHeader.length) content))
  (hq : ∀ w', w₀.Placed w' origin m content → Q () w')

include h hq

end Finish

section Directory

/-- The same writer further on, with nothing changed in front of a place. -/
structure Follows (w w' : Writer) (origin place : Nat) : Prop where
  moved : ∃ place' ≥ place, w.Moved w' origin place' w'.stream.content
  keeps : Keeps (origin + place) w.stream.content w'.stream.content

variable {w₁ : Writer}

end Directory

section Start

variable {s : Stream}

end Start

end Checkpoint.Zip.Writer
