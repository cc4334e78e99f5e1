import Checkpoint.Safetensors.Reader
import Checkpoint.Proofs.Bytes
import Checkpoint.Proofs.Safetensors.Layout
import Checkpoint.Proofs.Stream

/-! Reading files, by seeking or in order: the header that is in front, and of the payload what the
entries that are asked for describe. -/

namespace Checkpoint.Safetensors

open Effect Checkpoint.Stream

variable {s : Stream} {data payload : Bytes} {calls : List StreamMethod} {E : Error → Stream → Prop}

theorem ensures_readPart {Q : Bytes → Stream → Prop} {n size : Nat} (h : s.Offers data)
    (within : n + size ≤ data.length)
    (hq : ∀ calls, Q ((data.drop n).take size) (s.moved calls (n + size))) :
    (readPart size).Ensures (s.moved calls n) Q E :=
  ensures_describing (ensures_read_offers h within hq)

/-! ### The header -/

/-- How long a stream says that its header is. -/
def headerLength (s : Stream) : Nat :=
  Bytes.fromLittleEndian ((s.content.drop s.position).take Header.lengthSize)

/-- What a stream says is left of so many bytes: nothing unless it can seek. -/
def heldBy (s : Stream) (left : Nat) : Option Int :=
  if s.mode = .seekable then some left else none

theorem ensures_remaining_healthy {Q : Option Int → Stream → Prop} (h : s.Healthy)
    (small : s.position < sizeLimit) (hq : ∀ calls, Q (some ((s.content.length : Int) - s.position))
      (s.after calls s.content s.position)) : remaining.Ensures s Q E := by
  unfold remaining
  apply ensures_describing
  rw [ensures_bind]
  apply ensures_seekable h
  intro calls
  rw [if_pos rfl, ensures_bind]
  apply ensures_tell (h.after _ _ _)
  intro calls
  rw [ensures_bind]
  apply ensures_seekFromEnd ((h.after _ _ _).after _ _ _) (Nat.zero_le _)
  intro calls
  rw [ensures_bind]
  apply ensures_seek (((h.after _ _ _).after _ _ _).after _ _ _)
  · exact fun calls _ => (ensures_pure _).2 (hq calls)
  · exact fun past => absurd small (Nat.not_lt.2 past)

theorem ensures_remaining {Q : Option Int → Stream → Prop} {n : Nat} (h : s.Offers data)
    (hn : n ≤ data.length) (hq : ∀ calls, Q (heldBy s (data.length - n)) (s.moved calls n)) :
    remaining.Ensures (s.moved calls n) Q E := by
  have length := h.length
  have small := h.lt_sizeLimit
  unfold heldBy at hq
  by_cases mode : s.mode = .seekable
  · apply ensures_remaining_healthy (h.healthy mode calls n)
    · change s.position + n < sizeLimit
      omega
    · intro calls
      have left : ((s.content.length : Nat) : Int) - (s.position + n : Nat) =
          (data.length - n : Nat) := by
        omega
      rw [if_pos mode] at hq
      exact left ▸ hq calls
  · unfold remaining
    apply ensures_describing
    rw [ensures_bind]
    apply ensures_seekable_offers h
    intro calls
    simp only [decide_eq_false mode, if_neg mode, Bool.false_eq_true, if_false] at hq ⊢
    exact (ensures_pure _).2 (hq calls)

/-- A text that is there with its length in front is decoded with what the stream says is left. -/
theorem ensures_tryReadHeader {Q : Header → Stream → Prop} {config : Config} {body : Bytes}
    (h : s.Offers (Bytes.littleEndian Header.lengthSize body.length ++ body ++ payload))
    (fits : body.length ≤ config.maxHeaderSize)
    (hq : ∀ header, Header.decode body (heldBy s payload.length) = .ok header → ∀ calls,
      Q header (s.moved calls (Header.lengthSize + body.length)))
    (hE : ∀ e, Header.decode body (heldBy s payload.length) = .error e → ∀ calls,
      E e (s.moved calls (Header.lengthSize + body.length))) :
    (readHeader config).Ensures s Q E := by
  have size := h.length
  have small := h.lt_sizeLimit
  have front : (Bytes.littleEndian Header.lengthSize body.length).length = Header.lengthSize :=
    Bytes.length_littleEndian _ _
  rw [List.length_append, List.length_append, front] at size
  have length : Bytes.fromLittleEndian (Bytes.littleEndian Header.lengthSize body.length) =
      body.length := by
    apply Bytes.fromLittleEndian_of_lt
    unfold sizeLimit at small
    unfold Header.lengthSize
    omega
  have start : ((Bytes.littleEndian Header.lengthSize body.length ++ body ++ payload).drop 0).take
      Header.lengthSize = Bytes.littleEndian Header.lengthSize body.length := by
    rw [List.drop_zero, List.append_assoc, List.take_left' front]
  have text : ((Bytes.littleEndian Header.lengthSize body.length ++ body ++ payload).drop
      (0 + Header.lengthSize)).take body.length = body := by
    rw [Nat.zero_add, List.append_assoc, List.drop_left' front, List.take_left]
  unfold readHeader
  rw [ensures_bind, ← moved_zero s]
  apply ensures_readPart h (by rw [List.length_append, List.length_append, front]; omega)
  intro calls
  rw [start]
  simp only [ne_eq, front, length, not_true_eq_false, if_false, if_neg (Nat.not_lt.2 fits)]
  rw [ensures_bind]
  apply ensures_readPart h (by rw [List.length_append, List.length_append, front]; omega)
  intro calls
  rw [text]
  simp only [not_true_eq_false, if_false]
  rw [ensures_bind]
  apply ensures_remaining h (by rw [List.length_append, List.length_append, front]; omega)
  intro calls
  have left : (Bytes.littleEndian Header.lengthSize body.length ++ body ++ payload).length -
      (0 + Header.lengthSize + body.length) = payload.length := by
    rw [List.length_append, List.length_append, front]
    omega
  rw [left, Nat.zero_add]
  exact ensures_ofExcept (fun header decoded => hq header decoded calls)
    fun e failed => hE e failed calls

/-- A header is read if it is there with its length in front, and passes the checks with what the stream
says is left. -/
theorem ensures_readHeader {Q : Header → Stream → Prop} {config : Config} {body : Bytes}
    {header : Header} (h : s.Offers (Bytes.littleEndian Header.lengthSize body.length ++ body ++ payload))
    (fits : body.length ≤ config.maxHeaderSize)
    (decoded : Header.decode body (heldBy s payload.length) = .ok header)
    (hq : ∀ calls, Q header (s.moved calls (Header.lengthSize + body.length))) :
    (readHeader config).Ensures s Q E := by
  apply ensures_tryReadHeader h fits
  · intro found same
    rw [decoded] at same
    cases same
    exact hq
  · intro e failed
    rw [decoded] at failed
    cases failed

/-! ### The payload -/

/-- What an entry describes of a payload. -/
def Entry.dataIn (e : Entry) (payload : Bytes) : Bytes := (payload.drop e.start).take e.size

theorem Entry.length_dataIn {e : Entry} (ordered : e.start ≤ e.stop) (within : e.stop ≤ payload.length) :
    (e.dataIn payload).length = e.size := by
  rw [dataIn, List.length_take, List.length_drop, size]
  omega

theorem ensures_discard {Q : Unit → Stream → Prop} {n count : Nat} (h : s.Offers payload)
    (within : n + count ≤ payload.length) (hq : ∀ calls, Q () (s.moved calls (n + count))) :
    (discard count).Ensures (s.moved calls n) Q E := by
  induction count using Nat.strongRecOn generalizing n calls with
  | ind count ih =>
    rw [discard]
    split
    · next none =>
      subst none
      exact (ensures_pure _).2 (hq calls)
    · next some =>
      have positive : 0 < discardLimit := by
        decide
      rw [ensures_bind]
      apply ensures_readPart h (by omega)
      intro calls
      have length : ((payload.drop n).take (min count discardLimit)).length = min count discardLimit := by
        rw [List.length_take, List.length_drop]
        omega
      simp only [length]
      rw [if_neg (by omega)]
      apply ih _ (by omega) (by omega)
      intro calls
      have rest : n + min count discardLimit + (count - min count discardLimit) = n + count := by
        omega
      exact rest ▸ hq calls

/-- A place to seek from, if there is one, is that of the payload. -/
def IsBase (s : Stream) (base : Option Nat) : Prop :=
  ∀ place ∈ base, place = s.position ∧ s.mode = .seekable

theorem ensures_payloadStart {Q : Option Nat → Stream → Prop} (h : s.Offers payload)
    (hq : ∀ base, IsBase s base → ∀ calls, Q base (s.moved calls 0)) :
    payloadStart.Ensures s Q E := by
  unfold payloadStart
  apply ensures_describing
  rw [ensures_bind, ← moved_zero s]
  apply ensures_seekable_offers h
  intro calls
  by_cases mode : s.mode = .seekable
  · simp only [decide_eq_true mode, if_true]
    rw [ensures_bind]
    apply ensures_tell (h.healthy mode calls 0)
    intro calls
    refine (ensures_pure _).2 (hq _ ?_ calls)
    rintro place ⟨⟩
    exact ⟨rfl, mode⟩
  · simp only [decide_eq_false mode, Bool.false_eq_true, if_false]
    exact (ensures_pure _).2 (hq none nofun calls)

theorem ensures_advance {Q : Unit → Stream → Prop} {base : Option Nat} {position target : Nat}
    (h : s.Offers payload) (isBase : IsBase s base) (forward : position ≤ target)
    (within : target ≤ payload.length) (hq : ∀ calls, Q () (s.moved calls target)) :
    (advance base position target).Ensures (s.moved calls position) Q E := by
  cases base with
  | none =>
    apply ensures_discard h (by omega)
    rwa [Nat.add_sub_cancel' forward]
  | some place =>
    obtain ⟨rfl, mode⟩ := isBase place rfl
    have length := h.length
    have small := h.lt_sizeLimit
    apply ensures_describing
    apply ensures_seek (h.healthy mode calls position)
    · exact fun calls _ => hq calls
    · intro past
      omega

/-- Ranges one after the other are read from a payload that holds them all. -/
theorem ensures_readEntries {Q : List (Entry × Bytes) → Stream → Prop} {base : Option Nat}
    {position : Nat} {entries : List Entry} (h : s.Offers payload) (isBase : IsBase s base)
    (follows : Follows position entries) (within : ∀ e ∈ entries, e.stop ≤ payload.length)
    (layable : ∀ e ∈ entries, e.size = 0 → Shape.requireContiguous e.shape = .ok ())
    (hq : ∀ calls n, Q (entries.map fun e => (e, e.dataIn payload)) (s.moved calls n)) :
    (readEntries base position entries).Ensures (s.moved calls position) Q E := by
  induction entries generalizing position calls Q with
  | nil => exact (ensures_pure _).2 (hq calls position)
  | cons e entries ih =>
    rw [List.forall_mem_cons] at within layable
    obtain ⟨forward, ordered, follows⟩ := follows
    have length := Entry.length_dataIn ordered within.1
    have last : e.start + e.size = e.stop := Nat.add_sub_cancel' ordered
    have reading (calls) : (readEntries base e.start (e :: entries)).Ensures (s.moved calls e.start)
        Q E := by
      rw [readEntries, if_neg (not_not.2 rfl), ensures_bind]
      apply ensures_readPart h (by omega)
      intro calls
      change Ensures (if (e.dataIn payload).length ≠ e.size then _ else _) _ _ _
      rw [if_neg (not_not.2 length), last]
      have rest (calls) : (readEntries base e.stop entries).Ensures (s.moved calls e.stop)
          (fun others t => Ensures (pure ((e, e.dataIn payload) :: others)) t Q E) E := by
        apply ih follows within.2 layable.2
        intro calls n
        exact (ensures_pure _).2 (hq calls n)
      split
      · next empty =>
        have none : e.size = 0 := by
          rw [← length, List.length_eq_zero_iff]
          exact List.isEmpty_iff.1 empty
        rw [layable.1 none, ensures_bind, ensures_ofExcept_ok, ensures_bind]
        exact rest calls
      · rw [ensures_bind]
        exact rest calls
    by_cases here : e.start = position
    · exact here ▸ reading calls
    · rw [readEntries, if_pos here, ensures_bind]
      apply ensures_advance h isBase forward (by omega)
      intro calls
      have := reading calls
      rwa [readEntries, if_neg (not_not.2 rfl)] at this

theorem Header.selected_sublist (header : Header) (keys : Option (List Text)) :
    (header.selected keys).Sublist header.inFileOrder := by
  cases keys with
  | none => exact List.Sublist.refl _
  | some keys => exact List.filter_sublist

theorem Header.mem_inFileOrder {header : Header} {e : Entry} :
    e ∈ header.inFileOrder ↔ e ∈ header.entries :=
  List.mem_mergeSort

/-- The state that a payload is read as. -/
def stateOf (payload : Bytes) (entries : List Entry) : StateDict :=
  (entries.map fun e => (e, e.dataIn payload)).foldl addTensor {}

/-- From a payload that a header has been checked with, the entries that are asked for are read as they
are described, in the order of the payload. -/
theorem ensures_loadPayload {Q : StateDict → Stream → Prop} {header : Header} {keys : Option (List Text)}
    (h : s.Offers payload) (valid : header.validate (some payload.length) = .ok ())
    (ordered : ∀ e ∈ header.entries, e.start ≤ e.stop)
    (layable : ∀ e ∈ header.selected keys, e.size = 0 → Shape.requireContiguous e.shape = .ok ())
    (hq : ∀ calls n, Q (stateOf payload (header.selected keys)) (s.moved calls n)) :
    (loadPayload header keys).Ensures s Q E := by
  obtain ⟨-, stop, tiles, held⟩ := Header.validate_eq_ok.1 valid
  obtain rfl : stop = payload.length := Int.ofNat_inj.1 (held _ rfl)
  have ordered : ∀ e ∈ header.inFileOrder, e.start ≤ e.stop := fun e he =>
    ordered e (Header.mem_inFileOrder.1 he)
  have part := header.selected_sublist keys
  unfold loadPayload
  rw [ensures_bind]
  apply ensures_payloadStart h
  intro base isBase calls
  rw [ensures_bind]
  apply ensures_readEntries h isBase ((tiles.follows ordered).sublist part)
    (fun e he => tiles.stop_le ordered e (part.subset he)) layable
  intro calls n
  exact (ensures_pure _).2 (hq calls n)

end Checkpoint.Safetensors
