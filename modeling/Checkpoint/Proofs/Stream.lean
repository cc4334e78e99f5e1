import Checkpoint.Proofs.Effect
import Mathlib.Data.List.Basic

/-! Streams without faults.  What has been written up to a place stays in front of it; what is read is
what is there. -/

namespace Checkpoint.Stream

open Effect

variable {s t : Stream} {Q : Unit → Stream → Prop} {E : Error → Stream → Prop}

/-- A stream without faults, which need not offer everything. -/
structure Steady (s : Stream) : Prop where
  failing : s.failing = []
  readable : s.unreadable = none
  opened : s.closed = false

/-- A stream that offers everything and has no faults. -/
structure Healthy (s : Stream) : Prop where
  mode : s.mode = .seekable
  steady : s.Steady

/-- The same stream after other calls, with other content and at another place. -/
def after (s : Stream) (calls : List StreamMethod) (content : Bytes) (position : Nat) : Stream :=
  { s with calls, content, position }

theorem Steady.after (h : s.Steady) (calls : List StreamMethod) (content : Bytes)
    (position : Nat) : (s.after calls content position).Steady :=
  ⟨h.failing, h.readable, h.opened⟩

theorem Healthy.after (h : s.Healthy) (calls : List StreamMethod) (content : Bytes)
    (position : Nat) : (s.after calls content position).Healthy :=
  ⟨h.mode, h.steady.after calls content position⟩

theorem Steady.healthy_after (h : s.Steady) (mode : s.mode = .seekable) (calls : List StreamMethod)
    (content : Bytes) (position : Nat) : (s.after calls content position).Healthy :=
  ⟨mode, h.after calls content position⟩

theorem Healthy.offers (h : s.Healthy) (m : StreamMethod) : s.offers m = true := by
  simp [Stream.offers, h.mode]

theorem offers_read (s : Stream) : s.offers .read = true := by
  unfold offers
  cases s.mode <;> rfl

theorem offers_close (s : Stream) : s.offers .close = true := by
  unfold offers
  cases s.mode <;> rfl

theorem offers_write (s : Stream) : s.offers .write = true := by
  unfold offers
  cases s.mode <;> rfl

theorem ensures_call (h : s.Steady) {m : StreamMethod} (offered : s.offers m = true)
    (hq : Q () { s with calls := m :: s.calls }) : (call m).Ensures s Q E := by
  have opened : ¬ s.closed = true := by
    simp [h.opened]
  have steady : ¬ s.failsNext m = true := by
    simp [failsNext, h.failing]
  simp only [call, ensures_bind, ensures_get, offered, if_true, ensures_pure, ensures_set,
    if_neg opened, if_neg steady]
  exact hq

/-- What is in front of a place, with zeros for what is missing. -/
def front (content : Bytes) (position : Nat) : Bytes :=
  content.take position ++ List.replicate (position - content.length) 0

theorem length_front (content : Bytes) (position : Nat) :
    (front content position).length = position := by
  simp [front]
  omega

theorem front_of_le {content : Bytes} {position : Nat} (h : position ≤ content.length) :
    front content position = content.take position := by
  simp [front, Nat.sub_eq_zero_of_le h]

theorem overwrite_eq (content : Bytes) (position : Nat) (data : Bytes) :
    overwrite content position data =
      front content position ++ data ++ content.drop (position + data.length) :=
  rfl

theorem front_add (content : Bytes) (m n : Nat) :
    front content (m + n) = front content m ++ front (content.drop m) n := by
  unfold front
  rw [List.take_add, List.length_drop]
  by_cases h : m ≤ content.length
  · rw [Nat.sub_eq_zero_of_le h]
    simp only [List.replicate_zero, List.append_nil, List.append_assoc]
    congr 3
    omega
  · have short : content.drop m = [] := List.drop_eq_nil_of_le (by omega)
    simp only [short, List.take_nil, List.append_nil, List.nil_append, List.append_assoc,
      List.replicate_append_replicate]
    congr 2
    omega

theorem front_append (a b : Bytes) (n : Nat) :
    front (a ++ b) (a.length + n) = a ++ front b n := by
  rw [front_add, front_of_le (by simp), List.take_left, List.drop_left]

theorem length_overwrite (content : Bytes) (position : Nat) (data : Bytes) :
    (overwrite content position data).length = max content.length (position + data.length) := by
  rw [overwrite_eq, List.length_append, List.length_append, length_front, List.length_drop]
  omega

/-- Behind what has been written comes what was in front of it, and then it. -/
theorem front_overwrite (content : Bytes) (position : Nat) (data : Bytes) :
    front (overwrite content position data) (position + data.length) =
      front content position ++ data := by
  have length : (front content position ++ data).length = position + data.length := by
    rw [List.length_append, length_front]
  rw [overwrite_eq, ← length, ← Nat.add_zero (front content position ++ data).length, front_append]
  simp [front]

/-- What is written at the end is all that is behind. -/
theorem drop_overwrite (content data : Bytes) :
    (overwrite content content.length data).drop content.length = data := by
  rw [overwrite_eq, front_of_le (Nat.le_refl _), List.take_length, List.append_assoc, List.drop_left,
    List.drop_eq_nil_of_le (Nat.le_add_right ..), List.append_nil]

/-- Writing over a part of what is in front replaces that part. -/
theorem front_overwrite_within {content a old b data : Bytes}
    (h : front content (a ++ old ++ b).length = a ++ old ++ b) (hl : data.length = old.length) :
    front (overwrite content a.length data) (a ++ data ++ b).length = a ++ data ++ b := by
  have split := h
  rw [List.length_append, List.length_append, front_add, front_add] at split
  obtain ⟨first, last⟩ := List.append_inj' split (by rw [length_front])
  obtain ⟨ha, _⟩ := List.append_inj' first (by rw [length_front])
  have length : (front content a.length ++ data).length = (a ++ data).length := by
    rw [ha]
  rw [overwrite_eq, @List.length_append _ (a ++ data), ← length, front_append, ha, hl, last]

theorem ensures_write {data : Bytes} (h : s.Steady)
    (hq : ∀ calls, Q () (s.after calls
      (if data.isEmpty then s.content else overwrite s.content s.position data)
      (s.position + data.length))) : (write data).Ensures s Q E := by
  unfold write
  rw [ensures_bind]
  apply ensures_call h s.offers_write
  rw [ensures_bind, ensures_get]
  split
  · next empty =>
    have := hq (.write :: s.calls)
    rw [if_pos empty, List.isEmpty_iff.1 empty] at this
    exact (ensures_pure _).2 this
  · next full =>
    have := hq (.write :: s.calls)
    rw [if_neg full] at this
    exact (ensures_set _).2 this

theorem ensures_seek {position : Nat} (h : s.Healthy)
    (hq : ∀ calls, position < sizeLimit → Q () (s.after calls s.content position))
    (hE : sizeLimit ≤ position → ∀ calls, E .sizeOverflow (s.after calls s.content s.position)) :
    (seek position).Ensures s Q E := by
  unfold seek
  rw [ensures_bind]
  apply ensures_call h.steady (h.offers _)
  have natural : ¬ (position : Int) < 0 := by
    omega
  simp only [if_neg natural]
  split
  · next past =>
    rw [ensures_bind, ensures_throw]
    exact hE (by omega) _
  · next fits =>
    rw [ensures_modify]
    exact hq (.seek :: s.calls) (by omega)

theorem ensures_tell {Q : Nat → Stream → Prop} (h : s.Healthy)
    (hq : ∀ calls, Q s.position (s.after calls s.content s.position)) : tell.Ensures s Q E := by
  unfold tell
  rw [ensures_bind]
  apply ensures_call h.steady (h.offers _)
  rw [ensures_bind, ensures_get]
  exact (ensures_pure _).2 (hq (.tell :: s.calls))

/-- What a read of so many bytes gives, or of all that are left. -/
def ahead (s : Stream) : Option Nat → Bytes
  | some n => (s.content.drop s.position).take n
  | none => s.content.drop s.position

theorem ensures_tryRead {Q : Bytes → Stream → Prop} {size : Option Nat} (h : s.Steady)
    (hq : size.bind s.readFault? = none → ∀ calls, Q (s.ahead size)
      (s.after calls s.content (s.position + (s.ahead size).length)))
    (hE : ∀ fault, size.bind s.readFault? = some fault → ∀ calls,
      E fault (s.after calls s.content s.position)) : (read size).Ensures s Q E := by
  unfold read
  rw [ensures_bind]
  apply ensures_call h s.offers_read
  rw [ensures_bind, ensures_get]
  have same : size.bind ({ s with calls := .read :: s.calls } : Stream).readFault? =
      size.bind s.readFault? := rfl
  rw [same]
  cases met : size.bind s.readFault? with
  | some fault =>
    rw [ensures_bind, ensures_throw]
    exact hE fault met (.read :: s.calls)
  | none =>
    have unblocked (start stop : Nat) :
        ({ s with calls := .read :: s.calls } : Stream).blocks start stop = false := by
      simp [blocks, h.readable]
    simp only [unblocked, Bool.false_eq_true, if_false, ensures_bind, ensures_set]
    have := hq met (.read :: s.calls)
    cases size <;> exact (ensures_pure _).2 this

theorem ensures_read {Q : Bytes → Stream → Prop} {size : Option Nat} (h : s.Steady)
    (fits : size.bind s.readFault? = none)
    (hq : ∀ calls, Q (s.ahead size)
      (s.after calls s.content (s.position + (s.ahead size).length))) :
    (read size).Ensures s Q E := by
  apply ensures_tryRead h fun _ => hq
  intro fault found
  rw [fits] at found
  cases found

theorem ensures_seekFromEnd {back : Nat} {Q : Nat → Stream → Prop} (h : s.Healthy)
    (hb : back ≤ s.content.length)
    (hq : ∀ calls, Q (s.content.length - back)
      (s.after calls s.content (s.content.length - back))) : (seekFromEnd back).Ensures s Q E := by
  unfold seekFromEnd
  rw [ensures_bind]
  apply ensures_call h.steady (h.offers _)
  have enough : ¬ (s.isFile && s.content.length < back) = true := by
    simp
    omega
  rw [ensures_bind, ensures_get]
  simp only [if_neg enough, ensures_bind, ensures_modify, ensures_get, ensures_pure]
  exact hq (.seek :: s.calls)

theorem ensures_seekable {Q : Bool → Stream → Prop} (h : s.Healthy)
    (hq : ∀ calls, Q true (s.after calls s.content s.position)) : seekable.Ensures s Q E := by
  unfold seekable
  rw [ensures_bind, ensures_get, h.mode]
  simp only [ensures_bind]
  apply ensures_call h.steady (h.offers _)
  exact (ensures_pure _).2 (hq (.seekable :: s.calls))

theorem ensures_canSeek {Q : Bool → Stream → Prop} (h : s.Steady)
    (hq : ∀ calls, Q (decide (s.mode = .seekable)) (s.after calls s.content s.position)) :
    canSeek.Ensures s Q E := by
  unfold canSeek
  rw [ensures_tryCatch]
  cases mode : s.mode with
  | seekable =>
    rw [mode] at hq
    exact ensures_seekable ⟨mode, h⟩ hq
  | forward =>
    rw [mode] at hq
    unfold seekable
    rw [ensures_bind, ensures_get, mode, h.opened]
    exact (ensures_pure _).2 (hq s.calls)
  | bare =>
    rw [mode] at hq
    unfold seekable
    rw [ensures_bind, ensures_get, mode]
    exact (ensures_throw _).2 ((ensures_pure _).2 (hq s.calls))

theorem ensures_close (h : s.Steady)
    (hq : ∀ calls, Q () { s.after calls s.content s.position with closed := true }) :
    close.Ensures s Q E := by
  unfold close
  rw [ensures_bind, ensures_get, h.opened]
  simp only [Bool.false_eq_true, if_false, ensures_bind]
  apply ensures_call h s.offers_close
  exact (ensures_modify _).2 (hq (.close :: s.calls))

theorem Steady.exists_close (h : s.Steady) : ∃ t, close.perform s = (.ok (), t) := by
  have closes : close.Ensures s (fun _ _ => True) fun _ _ => False := ensures_close h fun _ => trivial
  obtain ⟨_, t, closed, -⟩ := closes.exists_ok
  exact ⟨t, closed⟩

/-- A call that is made changes only the log. -/
theorem ensures_call_made (s : Stream) (m : StreamMethod) :
    (call m).Ensures s (fun _ t => t = { s with calls := m :: s.calls }) fun _ _ => True := by
  unfold call
  rw [ensures_bind, ensures_get]
  dsimp only
  split
  · rw [ensures_bind, ensures_set]
    split
    · rw [ensures_bind, ensures_throw]
      trivial
    · split
      · rw [ensures_throw]
        trivial
      · rw [ensures_pure]
  · rw [ensures_bind, ensures_throw]
    trivial

/-- Closing a stream loses nothing. -/
theorem content_close (closed : close.perform s = (.ok (), t)) : t.content = s.content := by
  have keeps : close.Ensures s (fun _ t => t.content = s.content) fun _ _ => True := by
    unfold close
    rw [ensures_bind, ensures_get]
    split
    · exact (ensures_pure _).2 rfl
    · rw [ensures_bind]
      apply (ensures_call_made s .close).post
      rintro _ _ rfl
      exact (ensures_modify _).2 rfl
  exact keeps.of_ok closed

/-- The bytes that are read of a stream as a whole: all that it has if it can seek, else what is ahead. -/
def image (s : Stream) : Bytes :=
  if s.mode = .seekable then s.content else s.content.drop s.position

/-! ### Streams with given bytes ahead -/

/-- A stream that has these bytes ahead, and reads any part of them. -/
structure Offers (s : Stream) (data : Bytes) : Prop where
  steady : s.Steady
  answers : s.mode ≠ .bare
  place : s.position ≤ s.content.length
  holds : s.content.drop s.position = data
  small : s.readFault? s.content.length = none

/-- The same stream further on, after other calls. -/
def moved (s : Stream) (calls : List StreamMethod) (n : Nat) : Stream :=
  s.after calls s.content (s.position + n)

theorem moved_zero (s : Stream) : s.moved s.calls 0 = s :=
  rfl

theorem readFault?_of_le {m n : Nat} (h : s.readFault? n = none) (le : m ≤ n) :
    s.readFault? m = none := by
  unfold readFault? at h ⊢
  simp only [Bool.or_eq_true, Bool.and_eq_true, decide_eq_true_eq] at h ⊢
  split at h
  · cases h
  · next fits =>
    rw [if_neg fun large => fits (large.imp (Nat.le_trans · le) fun l => ⟨l.1, Nat.le_trans l.2 le⟩)]
    split at h
    · cases h
    · next fits => exact if_neg fun large => fits ⟨large.1, Nat.le_trans large.2 le⟩

section Offers

variable {data : Bytes} {calls : List StreamMethod} {n size : Nat}

theorem offers_ofBytes (h : data.length < sizeLimit) : (ofBytes data).Offers data where
  steady := ⟨rfl, rfl, rfl⟩
  answers := nofun
  place := Nat.zero_le _
  holds := rfl
  small := by
    have within : ¬ sizeLimit ≤ data.length := Nat.not_le.2 h
    simp [readFault?, ofBytes, within]

theorem Offers.length (h : s.Offers data) : s.position + data.length = s.content.length := by
  rw [← h.holds, List.length_drop]
  exact Nat.add_sub_cancel' h.place

theorem Offers.lt_sizeLimit (h : s.Offers data) : s.content.length < sizeLimit := by
  have small := h.small
  unfold readFault? at small
  simp only [Bool.or_eq_true, Bool.and_eq_true, decide_eq_true_eq] at small
  split at small
  · cases small
  · next fits => omega

theorem Offers.moved {ahead : Bytes} (h : s.Offers (data ++ ahead)) (calls : List StreamMethod) :
    (s.moved calls data.length).Offers ahead where
  steady := h.steady.after _ _ _
  answers := h.answers
  place := by
    have := h.length
    rw [List.length_append] at this
    change s.position + data.length ≤ s.content.length
    omega
  holds := by
    change s.content.drop (s.position + data.length) = ahead
    rw [← List.drop_drop, h.holds, List.drop_left]
  small := h.small

theorem Offers.healthy (h : s.Offers data) (mode : s.mode = .seekable) (calls : List StreamMethod)
    (n : Nat) : (s.moved calls n).Healthy :=
  ⟨mode, h.steady.after _ _ _⟩

theorem ensures_read_offers {Q : Bytes → Stream → Prop} (h : s.Offers data)
    (within : n + size ≤ data.length)
    (hq : ∀ calls, Q ((data.drop n).take size) (s.moved calls (n + size))) :
    (read (some size)).Ensures (s.moved calls n) Q E := by
  have length := h.length
  have ahead : (s.moved calls n).ahead (some size) = (data.drop n).take size := by
    change (s.content.drop (s.position + n)).take size = _
    rw [← List.drop_drop, h.holds]
  have taken : ((data.drop n).take size).length = size := by
    rw [List.length_take, List.length_drop]
    omega
  apply ensures_read (s := s.moved calls n) (h.steady.after _ _ _)
  · exact readFault?_of_le h.small (by omega)
  · intro calls
    rw [ahead, taken]
    exact Nat.add_assoc s.position n size ▸ hq calls

theorem ensures_seekable_offers {Q : Bool → Stream → Prop} (h : s.Offers data)
    (hq : ∀ calls, Q (decide (s.mode = .seekable)) (s.moved calls n)) :
    seekable.Ensures (s.moved calls n) Q E := by
  cases mode : s.mode with
  | seekable =>
    apply ensures_seekable (h.healthy mode calls n)
    rw [mode] at hq
    exact hq
  | forward =>
    have forward : (s.moved calls n).mode = .forward := mode
    have opened : (s.moved calls n).closed = false := h.steady.opened
    unfold seekable
    rw [ensures_bind, ensures_get, forward, opened]
    rw [mode] at hq
    exact (ensures_pure _).2 (hq calls)
  | bare => exact absurd mode h.answers

end Offers

/-! ### Bytes that are not read -/

section Veiled

variable {α β : Type} {m : StreamMethod} {data : Bytes} {size : Nat}

/-- The same stream, some bytes of which cannot be read. -/
def veil (s : Stream) (start stop : Nat) : Stream := { s with unreadable := some (start, stop) }

/-- Where the action is done, it is done as well if some bytes cannot be read, whichever these are. -/
def Blind (x : Action α) : Prop := ∀ (s t : Stream) (a : α) (start stop : Nat),
  x.perform s = (.ok a, t) → x.perform (s.veil start stop) = (.ok a, t.veil start stop)

theorem perform_call_eq_ok : (call m).perform s = (.ok (), t) ↔
    s.offers m = true ∧ s.closed = false ∧ s.failsNext m = false ∧ t = { s with calls := m :: s.calls } := by
  rw [perform_eq_ok]
  unfold call
  simp only [bind, EStateM.bind, get_eq]
  cases s.offers m with
  | false =>
    constructor
    · intro h
      cases h
    · rintro ⟨offered, -⟩
      cases offered
  | true =>
    cases s.closed with
    | true =>
      constructor
      · intro h
        cases h
      · rintro ⟨-, opened, -⟩
        cases opened
    | false =>
      cases s.failsNext m with
      | true =>
        constructor
        · intro h
          cases h
        · rintro ⟨-, -, steady, -⟩
          cases steady
      | false =>
        constructor
        · intro h
          cases h
          exact ⟨rfl, rfl, rfl, rfl⟩
        · rintro ⟨-, -, -, rfl⟩
          rfl

theorem blind_call (m : StreamMethod) : Blind (call m) := by
  intro s t _ start stop h
  obtain ⟨offered, opened, steady, rfl⟩ := perform_call_eq_ok.1 h
  exact perform_call_eq_ok.2 ⟨offered, opened, steady, rfl⟩

theorem blind_pure (a : α) : Blind (pure a) := by
  intro s t _ start stop h
  cases h
  rfl

theorem blind_throw (e : Error) : Blind (throw e : Action α) := by
  rintro s t a start stop ⟨⟩

theorem Blind.bind {x : Action α} {f : α → Action β} (h : Blind x) (next : ∀ a, Blind (f a)) :
    Blind (x >>= f) := by
  intro s t b start stop done
  obtain ⟨a, u, first, rest⟩ := perform_bind_eq_ok.1 done
  exact perform_bind_eq_ok.2 ⟨a, u.veil start stop, h s u a start stop first, next a u t b start stop rest⟩

theorem Blind.describing {x : Action α} (h : Blind x) (describe : Text → StreamError) :
    Blind (describing describe x) := by
  intro s t a start stop done
  exact perform_describing_eq_ok.2 (h s t a start stop (perform_describing_eq_ok.1 done))

/-- What is looked up in the stream does not depend on the bytes that cannot be read. -/
theorem blind_get {f : Stream → Action α} (same : ∀ s start stop, f (s.veil start stop) = f s)
    (h : ∀ s, Blind (f s)) : Blind (get >>= f) := by
  intro s t a start stop done
  have looked (s : Stream) : (get >>= f).perform s = (f s).perform s := rfl
  rw [looked] at done ⊢
  rw [same]
  exact h s s t a start stop done

theorem blind_modify {f : Stream → Stream}
    (keeps : ∀ s start stop, f (s.veil start stop) = (f s).veil start stop) : Blind (modify f) := by
  intro s t _ start stop done
  cases done
  exact congrArg (Prod.mk (Except.ok PUnit.unit)) (keeps s start stop)

theorem blind_tell : Blind tell :=
  (blind_call .tell).bind fun _ => blind_get (fun _ _ _ => rfl) fun s => blind_pure s.position

theorem blind_seekable : Blind seekable := by
  refine blind_get (fun _ _ _ => rfl) fun s => ?_
  split
  · exact (blind_call .seekable).bind fun _ => blind_pure true
  · split
    · exact blind_throw _
    · exact blind_pure false
  · exact blind_throw _

theorem blind_seek (position : Int) : Blind (seek position) := by
  refine (blind_call .seek).bind fun _ => ?_
  dsimp only
  split
  · exact blind_get (fun _ _ _ => rfl) fun _ => blind_throw _
  · split
    · exact blind_throw _
    · exact blind_modify fun _ _ _ => rfl

theorem blind_seekFromEnd (back : Nat) : Blind (seekFromEnd back) := by
  refine (blind_call .seek).bind fun _ => blind_get (fun _ _ _ => rfl) fun s => ?_
  have going : Blind (do
      modify fun s : Stream => { s with position := s.content.length - back }
      return (← get).position : Action Nat) :=
    (blind_modify fun _ _ _ => rfl).bind fun _ => blind_get (fun _ _ _ => rfl) fun s => blind_pure s.position
  split
  · exact (blind_throw _).bind fun _ => going
  · exact going

theorem perform_read_eq_ok : (read (some size)).perform s = (.ok data, t) ↔
    (call .read).perform s = (.ok (), { s with calls := .read :: s.calls }) ∧
      s.readFault? size = none ∧ data = (s.content.drop s.position).take size ∧
      s.blocks s.position (s.position + data.length) = false ∧
      t = { s with calls := .read :: s.calls, position := s.position + data.length } := by
  have fault : ({ s with calls := .read :: s.calls } : Stream).readFault? size = s.readFault? size := rfl
  have blocking (start stop : Nat) : ({ s with calls := .read :: s.calls } : Stream).blocks start stop =
      s.blocks start stop := rfl
  unfold read
  rw [perform_bind_eq_ok]
  constructor
  · rintro ⟨_, s', called, h⟩
    obtain ⟨-, -, -, rfl⟩ := perform_call_eq_ok.1 called
    refine ⟨called, ?_⟩
    rw [perform_eq_ok] at h
    simp only [bind, EStateM.bind, get_eq, Option.bind, fault, blocking] at h
    cases sound : s.readFault? size with
    | some e =>
      rw [sound] at h
      cases h
    | none =>
      rw [sound] at h
      dsimp only at h
      cases clear : s.blocks s.position (s.position + ((s.content.drop s.position).take size).length) with
      | true =>
        rw [clear] at h
        cases h
      | false =>
        rw [clear] at h
        cases h
        exact ⟨rfl, rfl, clear, rfl⟩
  · rintro ⟨called, sound, rfl, clear, rfl⟩
    refine ⟨(), _, called, ?_⟩
    rw [perform_eq_ok]
    simp only [bind, EStateM.bind, get_eq, Option.bind, fault, blocking, sound, clear]
    rfl

/-- A read that is done does not depend on the bytes behind what it gives. -/
theorem perform_read_veil (done : (read (some size)).perform s = (.ok data, t)) {start : Nat}
    (behind : t.position ≤ start) (stop : Nat) :
    (read (some size)).perform (s.veil start stop) = (.ok data, t.veil start stop) := by
  obtain ⟨called, sound, given, -, rfl⟩ := perform_read_eq_ok.1 done
  refine perform_read_eq_ok.2 ⟨blind_call .read _ _ _ start stop called, sound, given, ?_, rfl⟩
  have behind : ¬ start < s.position + data.length := Nat.not_lt.2 behind
  simp [blocks, veil, behind]

/-! ### Places -/

theorem position_seekable {answer : Bool} (h : seekable.perform s = (.ok answer, t)) :
    t.position = s.position := by
  obtain ⟨u, _, looked, h⟩ := perform_bind_eq_ok.1 h
  cases looked
  split at h
  · obtain ⟨_, _, called, h⟩ := perform_bind_eq_ok.1 h
    obtain ⟨-, -, -, rfl⟩ := perform_call_eq_ok.1 called
    cases h
    rfl
  · split at h <;> cases h
    rfl
  · cases h

theorem position_tell {n : Nat} (h : tell.perform s = (.ok n, t)) : n = s.position := by
  obtain ⟨_, _, called, h⟩ := perform_bind_eq_ok.1 h
  obtain ⟨-, -, -, rfl⟩ := perform_call_eq_ok.1 called
  cases h
  rfl

theorem position_seek {n : Nat} (h : (seek n).perform s = (.ok (), t)) : t.position = n := by
  obtain ⟨_, u, called, h⟩ := perform_bind_eq_ok.1 h
  dsimp only at h
  split at h
  · cases h
  · split at h
    · cases h
    · cases h
      rfl

end Veiled

end Checkpoint.Stream
