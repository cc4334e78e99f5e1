import Checkpoint.Proofs.Lockstep
import Checkpoint.Proofs.ReadFaults

/-! Twin streams.  Two streams answer alike but for some of their bytes; what is read of them is in step as
long as it is read where they agree. -/

namespace Checkpoint

open Effect

namespace Stream

/-- So many bytes of a stream from a place on, or those that are left. -/
def part (s : Stream) (place size : Nat) : Bytes := (s.content.drop place).take size

/-- Whether reading so many bytes from a place on meets bytes that cannot be read. -/
def blocked (s : Stream) (place size : Nat) : Bool := s.blocks place (place + (s.part place size).length)

/-- Two streams that offer the same and are of the same size.  No method of the second fails; the first may
have faults of any kind if the second is the one that has been healed of them. -/
structure Twins (healed : Prop) (S T : Stream) : Prop where
  mode : T.mode = S.mode
  isFile : T.isFile = S.isFile
  closed : T.closed = S.closed
  length : T.content.length = S.content.length
  sound : T.failing = []
  faults : healed ∨ S.failing = []

/-- Whatever part of the range is read, both hold the same bytes there, and these can be read of both or of
none; of a stream that has been healed they can be read anyway. -/
def ReadAlike (healed : Prop) (S T : Stream) (first last : Nat) : Prop :=
  ∀ place size, first ≤ place → place + size ≤ last → T.part place size = S.part place size ∧
    (T.blocked place size = S.blocked place size ∨ healed ∧ T.blocked place size = false)

/-- Two streams are alike as a whole. -/
def AllAlike (healed : Prop) (S T : Stream) : Prop := ∀ first last, ReadAlike healed S T first last

/-- Each of two streams wherever it has been gone to. -/
structure Abreast (S T s t : Stream) : Prop where
  left : S.Visits s
  right : T.Visits t

/-- Each of two streams at the same place. -/
structure Level (S T s t : Stream) : Prop extends Abreast S T s t where
  position : t.position = s.position

/-- What is excused while a stream is worked on: its own failures, if it is not the healed one. -/
def Excused (healed : Prop) (e : Error) : Prop := healed ∧ ∃ reason, e = .rawStream reason

/-- The same in the words of the operation that met the failure. -/
def Told (healed : Prop) (e : Error) : Prop := healed ∧ ∃ cause, e = .streamFailed cause

variable {healed : Prop} {S T s t : Stream} {first last : Nat}

theorem Told.of_excused (describe : Text → StreamError) (e : Error) (h : Excused healed e) :
    ∃ reason, e = .rawStream reason ∧ Told healed (.streamFailed (describe reason)) := by
  obtain ⟨healed, reason, rfl⟩ := h
  exact ⟨reason, rfl, healed, _, rfl⟩

theorem length_part_le (s : Stream) (place size : Nat) : (s.part place size).length ≤ size :=
  List.length_take_le _ _

theorem ReadAlike.within (h : ReadAlike healed S T first last) {first' last' : Nat}
    (low : first ≤ first') (high : last' ≤ last) : ReadAlike healed S T first' last' :=
  fun place size hp hs => h place size (low.trans hp) (hs.trans high)

theorem abreast_self (S T : Stream) : Abreast S T S T := ⟨.refl S, .refl T⟩

theorem Abreast.trans (h : Abreast S T s t) {s' t' : Stream} (hs : s.Visits s') (ht : t.Visits t') :
    Abreast S T s' t' :=
  ⟨h.left.trans hs, h.right.trans ht⟩

/-- The stream with a call entered into its log. -/
def logged (s : Stream) (m : StreamMethod) : Stream := { s with calls := m :: s.calls }

theorem Abreast.logged (h : Abreast S T s t) (m : StreamMethod) :
    Abreast S T (s.logged m) (t.logged m) :=
  h.trans ⟨_, _, rfl⟩ ⟨_, _, rfl⟩

theorem call_eq (m : StreamMethod) (s : Stream) : call m s =
    if s.offers m then
      if s.closed then .error .closedStream (s.logged m)
      else if s.failsNext m then
        .error (.rawStream (Text.ofString ("injected " ++ m.name ++ " failure"))) (s.logged m)
      else .ok () (s.logged m)
    else .error .missingOperation s := by
  unfold call
  simp only [bind, EStateM.bind, get_eq]
  by_cases offered : s.offers m = true
  · by_cases closed : s.closed = true
    · simp only [if_pos offered, if_pos closed]
      rfl
    · by_cases fails : s.failsNext m = true
      · simp only [if_pos offered, if_neg closed, if_pos fails]
        rfl
      · simp only [if_pos offered, if_neg closed, if_neg fails]
        rfl
  · simp only [if_neg offered]
    rfl

/-- A method for which no fault is set does not fail. -/
theorem failsNext_eq_false {m : StreamMethod} (sound : ∀ fault ∈ s.failing, fault.1 ≠ m) :
    s.failsNext m = false := by
  rw [failsNext, List.any_eq_false]
  intro fault hf
  simp [sound fault hf]

/-! ### Calls -/

theorem Twins.offers (twins : Twins healed S T) (h : Abreast S T s t) (m : StreamMethod) :
    t.offers m = s.offers m := by
  obtain ⟨⟨_, _, rfl⟩, ⟨_, _, rfl⟩⟩ := h
  simp only [Stream.offers, after, twins.mode]

theorem Twins.mode_eq (twins : Twins healed S T) (h : Abreast S T s t) : t.mode = s.mode := by
  obtain ⟨⟨_, _, rfl⟩, ⟨_, _, rfl⟩⟩ := h
  exact twins.mode

theorem Twins.closed_eq (twins : Twins healed S T) (h : Abreast S T s t) : t.closed = s.closed := by
  obtain ⟨⟨_, _, rfl⟩, ⟨_, _, rfl⟩⟩ := h
  exact twins.closed

theorem Twins.isFile_eq (twins : Twins healed S T) (h : Abreast S T s t) : t.isFile = s.isFile := by
  obtain ⟨⟨_, _, rfl⟩, ⟨_, _, rfl⟩⟩ := h
  exact twins.isFile

theorem Twins.length_eq (twins : Twins healed S T) (h : Abreast S T s t) :
    t.content.length = s.content.length := by
  obtain ⟨⟨_, _, rfl⟩, ⟨_, _, rfl⟩⟩ := h
  exact twins.length

theorem Twins.steady (twins : Twins healed S T) (h : Abreast S T s t) (m : StreamMethod) :
    t.failsNext m = false ∧ (healed ∨ s.failsNext m = false) := by
  obtain ⟨⟨_, _, rfl⟩, ⟨_, _, rfl⟩⟩ := h
  constructor
  · simp [failsNext, after, twins.sound]
  · exact twins.faults.imp id fun none => by simp [failsNext, after, none]

theorem Twins.synced_call (twins : Twins healed S T) (h : Abreast S T s t) (m : StreamMethod) :
    Synced (Excused healed) (call m) s t fun _ s' _ t' => s' = s.logged m ∧ t' = t.logged m := by
  have first := call_eq m s
  have second := call_eq m t
  rw [twins.offers h, twins.closed_eq h, (twins.steady h m).1] at second
  split at first
  · next offered =>
    rw [if_pos offered] at second
    split at first
    · next closed =>
      rw [if_pos closed] at second
      exact inStep_of_error first second
    · next opened =>
      rw [if_neg opened] at second
      split at first
      · next fails =>
        obtain healed | none := (twins.steady h m).2
        · exact inStep_of_excused first ⟨healed, _, rfl⟩
        · exact absurd fails (by simp [none])
      · exact inStep_of_ok first second ⟨rfl, rfl⟩
  · next missing =>
    rw [if_neg missing] at second
    exact inStep_of_error first second

theorem Twins.synced_seek (twins : Twins healed S T) (h : Abreast S T s t) (position : Int) :
    Synced (Excused healed) (seek position) s t fun _ s' _ t' =>
      Abreast S T s' t' ∧ 0 ≤ position ∧ s'.position = position.toNat ∧
        t'.position = position.toNat := by
  refine (twins.synced_call h .seek).bind ?_
  rintro _ _ _ _ - ⟨rfl, rfl⟩
  have h := h.logged .seek
  by_cases front : position < 0
  · have same : (t.logged .seek).refusal = (s.logged .seek).refusal := by
      simp only [refusal, twins.isFile_eq h]
    simp only [if_pos front]
    exact .inr same
  · simp only [if_neg front]
    refine inStep_unless fun _ => ?_
    exact inStep_of_ok rfl rfl ⟨h.trans ⟨_, _, rfl⟩ ⟨_, _, rfl⟩, not_lt.1 front, rfl, rfl⟩

theorem Twins.synced_tell (twins : Twins healed S T) (h : Abreast S T s t)  :
    Synced (Excused healed) tell s t fun a s' b t' => Abreast S T s' t' ∧
      (a = s.position ∧ s'.position = s.position) ∧ b = t.position ∧ t'.position = t.position := by
  refine (twins.synced_call h .tell).bind ?_
  rintro _ _ _ _ - ⟨rfl, rfl⟩
  exact inStep_of_ok rfl rfl ⟨h.logged .tell, ⟨rfl, rfl⟩, rfl, rfl⟩

theorem Twins.synced_seekable (twins : Twins healed S T) (h : Abreast S T s t) :
    Synced (Excused healed) seekable s t fun a s' b t' => (Abreast S T s' t' ∧ a = b) ∧
      s'.position = s.position ∧ t'.position = t.position := by
  refine inStep_get ?_
  rw [twins.mode_eq h]
  split
  · refine (twins.synced_call h .seekable).bind ?_
    rintro _ _ _ _ - ⟨rfl, rfl⟩
    exact inStep_pure ⟨⟨h.logged .seekable, rfl⟩, rfl, rfl⟩
  · rw [twins.closed_eq h]
    split
    · exact inStep_throw _
    · exact inStep_pure ⟨⟨h, rfl⟩, rfl, rfl⟩
  · exact inStep_throw _

theorem Twins.synced_seekFromEnd (twins : Twins healed S T) (h : Abreast S T s t) (back : Nat) :
    Synced (Excused healed) (seekFromEnd back) s t fun a s' b t' =>
      Abreast S T s' t' ∧ a = b := by
  refine (twins.synced_call h .seek).bind ?_
  rintro _ _ _ _ - ⟨rfl, rfl⟩
  have h := h.logged .seek
  refine inStep_get ?_
  rw [twins.isFile_eq h, twins.length_eq h]
  dsimp only
  have same : (t.logged .seek).refusal = (s.logged .seek).refusal := by
    simp only [refusal, twins.isFile_eq h]
  rw [same]
  refine inStep_unless fun _ => ?_
  refine inStep_of_ok rfl rfl ⟨h.trans ⟨_, _, rfl⟩ ⟨_, _, rfl⟩, ?_⟩
  simp only [twins.length_eq h]

theorem Twins.synced_read (twins : Twins healed S T) (h : Abreast S T s t) {size : Nat}
    (level : t.position = s.position)
    (alike : ReadAlike healed S T s.position (s.position + size)) :
    Synced (Excused healed) (read (some size)) s t fun a s' b t' =>
      (Abreast S T s' t' ∧ a = b) ∧ a = S.part s.position size ∧
        s'.position = s.position + a.length ∧ t'.position = s.position + a.length := by
  refine (twins.synced_call h .read).bind ?_
  rintro _ _ _ _ - ⟨rfl, rfl⟩
  refine inStep_get ?_
  obtain ⟨⟨calls, place, rfl⟩, ⟨calls', place', rfl⟩⟩ := id h
  obtain rfl : place' = place := level
  obtain ⟨same, reads⟩ := alike place' size le_rfl le_rfl
  have fault : ((T.after calls' T.content place').logged .read).readFault? size =
      ((S.after calls S.content place').logged .read).readFault? size := by
    simp only [readFault?, twins.isFile_eq (h.logged .read)]
  simp only [Option.bind_some, fault]
  split
  · exact .inr rfl
  · change InStep _ (if S.blocked place' size = true then _ else _) _
      (if T.blocked place' size = true then _ else _) _ _
    cases blocked : S.blocked place' size with
    | true =>
      obtain equal | ⟨healed, -⟩ := reads
      · rw [equal, blocked]
        exact .inr rfl
      · exact inStep_of_excused rfl ⟨healed, _, rfl⟩
    | false =>
      have readable : T.blocked place' size = false := by
        obtain equal | ⟨-, readable⟩ := reads
        · exact equal.trans blocked
        · exact readable
      rw [readable]
      refine inStep_of_ok rfl rfl ⟨⟨⟨⟨_, _, rfl⟩, ⟨_, _, rfl⟩⟩, same.symm⟩, rfl, rfl, ?_⟩
      exact congrArg (fun part => place' + part.length) same

end Stream

/-! ### Members of archives -/

namespace Zip

open Checkpoint.Stream

variable {healed : Prop} {S T s t : Stream} {e : Entry} {limit : Int}

/-- The fixed part of the local header of an entry. -/
def Entry.header (s : Stream) (e : Entry) : Bytes := s.part e.headerOffset.toNat localHeaderSize

/-- Where an entry ends that has the lengths which its local header declares. -/
def Entry.stop (s : Stream) (e : Entry) : Nat :=
  e.headerOffset.toNat + localHeaderSize + fieldAt (e.header s) 26 2 + fieldAt (e.header s) 28 2 +
    e.storedSize

/-- A member is alike in two streams, from its local header to the end of its content. -/
def Entry.Alike (healed : Prop) (S T : Stream) (e : Entry) : Prop :=
  0 ≤ e.headerOffset → ReadAlike healed S T e.headerOffset.toNat (e.stop S)

theorem synced_readAt (twins : Twins healed S T) (h : Abreast S T s t) {position : Int} {size : Nat}
    (alike : 0 ≤ position → ReadAlike healed S T position.toNat (position.toNat + size)) :
    Synced (Excused healed) (readAt position size) s t fun a s' b t' =>
      (Abreast S T s' t' ∧ a = b) ∧ 0 ≤ position ∧
        a = (S.part position.toNat size, position.toNat + (S.part position.toNat size).length) := by
  refine (twins.synced_seek h position).bind ?_
  rintro _ s₁ _ t₁ - ⟨h₁, front, place, place'⟩
  refine (twins.synced_read h₁ (place'.trans place.symm) (by rw [place]; exact alike front)).bind ?_
  rintro data s₂ _ t₂ - ⟨⟨h₂, rfl⟩, given, behind, behind'⟩
  refine (twins.synced_tell h₂).bind ?_
  rintro _ s₃ _ t₃ - ⟨h₃, ⟨rfl, -⟩, rfl, -⟩
  rw [place] at given behind behind'
  refine inStep_pure ⟨⟨h₃, ?_⟩, front, ?_⟩
  · rw [behind, behind']
  · rw [behind, given]

theorem synced_readPlace (twins : Twins healed S T) (h : Abreast S T s t) {place size : Nat}
    (alike : ReadAlike healed S T place (place + size)) :
    Synced (Excused healed) (readAt place size) s t fun a s' b t' =>
      (Abreast S T s' t' ∧ a = b) ∧ a = (S.part place size, place + (S.part place size).length) :=
  (synced_readAt twins h fun _ : 0 ≤ (place : Int) => alike).mono fun _ _ _ _ ⟨same, _, given⟩ => ⟨same, given⟩

/-- The same entry is open on both streams, and its content is alike. -/
structure Opens (healed : Prop) (S T : Stream) (e : Entry) (o : Opened) (s : Stream) (o' : Opened)
    (t : Stream) : Prop where
  abreast : Abreast S T s t
  same : o' = o
  entry : o.entry = e
  alike : ReadAlike healed S T o.dataStart (o.dataStart + e.storedSize)

/-- The extra field is read only if there is one. -/
theorem synced_extra {α : Type} {Q : α → Stream → α → Stream → Prop} (twins : Twins healed S T)
    (h : Abreast S T s t) {place size : Nat} (alike : ReadAlike healed S T place (place + size))
    {f : Nat → Action α} (next : ∀ position s' t', Abreast S T s' t' → place ≤ position →
      position ≤ place + size → Synced (Excused healed) (f position) s' t' Q) :
    Synced (Excused healed) (if size = 0 then pure place >>= f else do
      let (_, position) ← readAt place size
      pure position >>= f) s t Q := by
  by_cases none : size = 0
  · rw [if_pos none]
    exact next place s t h le_rfl (Nat.le_add_right _ _)
  · rw [if_neg none]
    refine (synced_readPlace twins h alike).bind ?_
    rintro ⟨extra, position⟩ s₁ _ t₁ - ⟨⟨h₁, rfl⟩, given⟩
    obtain ⟨-, rfl⟩ := Prod.mk.inj given
    exact next _ s₁ t₁ h₁ (Nat.le_add_right _ _) (Nat.add_le_add_left (S.length_part_le _ _) _)

/-- After the local header, nothing is read any more until the content is. -/
theorem synced_opened (twins : Twins healed S T) (h : Abreast S T s t) {place flags : Nat} {name : Bytes}
    (alike : ReadAlike healed S T place (place + e.storedSize)) :
    Synced (Excused healed) (do
      let headerName ← Effect.ofExcept (decodeName flags name)
      if headerName ≠ e.fullName then throw (corrupt e (.nameDiffers e.fullName name))
      if limit < place + e.storedSize then throw (corrupt e (.overlap e.fullName))
      if hasFlag e.flags 1 then throw .encryptedMember
      if e.method ≠ 0 then throw .unsupportedMember
      let _ ← Stream.seekable
      return { entry := e, dataStart := place } : Action Opened) s t (Opens healed S T e) := by
  refine inStep_ofExcept _ fun headerName _ => ?_
  dsimp only
  refine inStep_unless fun _ => inStep_unless fun _ => inStep_unless fun _ => inStep_unless fun _ => ?_
  refine (twins.synced_seekable h).bind ?_
  rintro _ _ _ _ - ⟨⟨h, rfl⟩, -⟩
  exact inStep_pure ⟨h, rfl, rfl, alike⟩

theorem synced_openEntry (twins : Twins healed S T) (h : Abreast S T s t)
    (alike : e.Alike healed S T) :
    Synced (Excused healed) (openEntry e limit) s t (Opens healed S T e) := by
  have within (front : 0 ≤ e.headerOffset) {first last : Nat} (low : e.headerOffset.toNat ≤ first)
      (high : last ≤ e.stop S) : ReadAlike healed S T first last := (alike front).within low high
  unfold openEntry
  refine (synced_readAt twins h fun front => within front le_rfl ?_).bind ?_
  · unfold Entry.stop
    omega
  rintro ⟨header, position⟩ s₁ _ t₁ - ⟨⟨h₁, rfl⟩, front, given⟩
  obtain ⟨rfl, rfl⟩ := Prod.mk.inj given
  refine inStep_unless fun long => inStep_unless fun _ => ?_
  have size : (e.header S).length = localHeaderSize := not_not.1 long
  have stop := Entry.stop.eq_def S e
  simp only [Entry.header] at size stop
  refine (synced_readPlace twins h₁ (within front ?_ ?_)).bind ?_
  · omega
  · omega
  rintro ⟨name, position⟩ s₂ _ t₂ - ⟨⟨h₂, rfl⟩, given⟩
  obtain ⟨named, rfl⟩ := Prod.mk.inj given
  have nameLength := named ▸ S.length_part_le _ _
  rw [← named]
  dsimp only
  refine synced_extra twins h₂ (within front ?_ ?_) fun position s₃ t₃ h₃ low high => ?_
  · omega
  · omega
  refine inStep_unless fun _ => synced_opened twins h₃ (within front ?_ ?_)
  · omega
  · omega

variable {o : Opened}

theorem synced_fetch (twins : Twins healed S T) (opens : Opens healed S T e o s o t) (need : Nat) :
    Synced (Excused healed) (o.fetch need) s t (Opens healed S T e) := by
  obtain rfl := opens.entry
  unfold Opened.fetch
  split
  · exact inStep_pure opens
  · dsimp only
    split
    · simp only [pure_bind]
      refine inStep_unless fun _ => inStep_unless fun _ => ?_
      exact inStep_pure ⟨opens.abreast, rfl, rfl, opens.alike⟩
    · refine (synced_readPlace twins opens.abreast (opens.alike.within ?_ ?_)).bind ?_
      · omega
      · omega
      rintro ⟨data, position⟩ s₁ _ t₁ - ⟨⟨h, rfl⟩, -⟩
      simp only [pure_bind]
      refine inStep_unless fun _ => inStep_unless fun _ => ?_
      exact inStep_pure ⟨h, rfl, rfl, opens.alike⟩

theorem synced_readAll (twins : Twins healed S T) (opens : Opens healed S T e o s o t) :
    Synced (Excused healed) o.readAll s t fun a s' b t' => Abreast S T s' t' ∧ a = b := by
  refine (synced_fetch twins opens _).bind ?_
  rintro o' _ _ _ - ⟨h, rfl, -, -⟩
  exact inStep_pure ⟨h, rfl⟩

theorem synced_readRange (twins : Twins healed S T) (opens : Opens healed S T e o s o t) (offset : Int)
    (size : Option Nat) : Synced (Excused healed) (o.readRange offset size) s t fun a s' b t' =>
      Abreast S T s' t' ∧ a = b := by
  refine (synced_fetch twins opens _).bind ?_
  rintro o₁ _ _ _ - opens
  obtain rfl := opens.same
  split
  · refine (synced_readAll twins opens).bind ?_
    rintro _ _ _ _ - ⟨h, rfl⟩
    exact inStep_pure ⟨h, rfl⟩
  · refine (synced_fetch twins opens _).bind ?_
    rintro o₂ _ _ _ - ⟨h, rfl, -, -⟩
    exact inStep_pure ⟨h, rfl⟩

end Zip

end Checkpoint
