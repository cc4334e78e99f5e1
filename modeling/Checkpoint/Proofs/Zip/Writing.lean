import Checkpoint.Proofs.Stream
import Checkpoint.Proofs.Text
import Checkpoint.Zip.Writer

/-! Archives as they are written.  On a stream without faults each member stands behind the one before
it, its header complete, and the directory behind them all. -/

namespace Checkpoint

/-- A number is too large for the field that it has to fit, or for a place of a stream. -/
def Error.IsOverflow (e : Error) : Prop := e = .fieldOverflow ∨ e = .sizeOverflow

theorem Error.IsOverflow.ne_rawStream {e : Error} (h : e.IsOverflow) (reason : Text) :
    e ≠ .rawStream reason := by
  obtain rfl | rfl := h <;> nofun

namespace Stream

/-- If a stream stood at its end before, content that is to have the given bytes in front ends where they do. -/
def Reaches (before : Stream) (content bytes : Bytes) : Prop :=
  before.position = before.content.length → content.length = bytes.length

/-- A stream without faults that stands behind the given bytes; what is behind it, if anything, is from
before. -/
structure Behind (s before : Stream) (bytes : Bytes) : Prop where
  healthy : s.Healthy
  front : front s.content bytes.length = bytes
  position : s.position = bytes.length
  reach : before.Reaches s.content bytes

variable {s before : Stream} {bytes data : Bytes} {Q : Unit → Stream → Prop} {E : Error → Stream → Prop}

theorem ensures_write_behind (h : s.Behind before bytes)
    (hq : ∀ t, t.Behind before (bytes ++ data) → Q () t) :
    (write data).Ensures s Q E := by
  apply ensures_write h.healthy.steady
  intro calls
  apply hq
  refine ⟨h.healthy.after _ _ _, ?_, ?_, fun ended => ?_⟩
  · change Stream.front (if _ then _ else _) _ = _
    split
    · next empty =>
      rw [List.isEmpty_iff.1 empty, List.append_nil]
      exact h.front
    · rw [h.position, List.length_append, front_overwrite, h.front]
  · change s.position + data.length = _
    rw [h.position, List.length_append]
  · have reach := h.reach ended
    change (if _ then _ else _ : Bytes).length = _
    rw [List.length_append]
    split
    · next empty => rw [List.isEmpty_iff.1 empty, List.length_nil, Nat.add_zero, reach]
    · rw [length_overwrite, h.position, reach]
      exact Nat.max_eq_right (Nat.le_add_right ..)

theorem ensures_write_within {a old b : Bytes} (h : s.Healthy) (full : data ≠ [])
    (hf : front s.content (a ++ old ++ b).length = a ++ old ++ b) (hp : s.position = a.length)
    (hl : data.length = old.length) (hr : before.Reaches s.content (a ++ old ++ b))
    (hq : ∀ t, t.Healthy → front t.content (a ++ data ++ b).length = a ++ data ++ b →
      before.Reaches t.content (a ++ data ++ b) → Q () t) :
    (write data).Ensures s Q E := by
  apply ensures_write h.steady
  intro calls
  refine hq _ (h.after _ _ _) ?_ fun ended => ?_
  · change front (if _ then _ else _) _ = _
    rw [if_neg (by simpa using full), hp]
    exact front_overwrite_within hf hl
  · have reach := hr ended
    change (if _ then _ else _ : Bytes).length = _
    rw [if_neg (by simpa using full), hp, length_overwrite]
    simp only [List.length_append] at reach ⊢
    omega

theorem ensures_seek_behind (h : s.Healthy) (hf : front s.content bytes.length = bytes)
    (hr : before.Reaches s.content bytes) (hq : ∀ t, t.Behind before bytes → Q () t)
    (hE : sizeLimit ≤ bytes.length → ∀ t, t.Healthy → E .sizeOverflow t) :
    (seek bytes.length).Ensures s Q E := by
  apply ensures_seek h
  · intro calls _
    exact hq _ ⟨h.after _ _ _, hf, rfl, hr⟩
  · exact fun past calls => hE past _ (h.after _ _ _)

end Stream

namespace Zip

/-- A member as it is written at a place where the stream can go back. -/
def Member.at (name : Text) (extra content : Bytes) (headerOffset : Nat) : Member where
  name := name
  extra := extra
  crc := (crc32 content).toNat
  size := content.length
  headerOffset := headerOffset
  described := false

namespace Writer

/-- A writer on a stream without faults that can go back. -/
structure Ready (w : Writer) : Prop where
  healthy : w.stream.Healthy
  rewinds : w.rewinds = true
  tells : w.written? = none

/-- A writer that has written the given bytes, and goes on behind them. -/
structure Laid (w : Writer) (before : Stream) (bytes : Bytes) : Prop where
  ready : w.Ready
  opened : w.closed = false
  front : Stream.front w.stream.content bytes.length = bytes
  start : w.directoryStart = bytes.length
  reach : before.Reaches w.stream.content bytes

variable {w : Writer} {before : Stream} {bytes data : Bytes} {Q : Unit → Writer → Prop} {E : Error → Writer → Prop}

theorem ensures_put_of_write (h : w.Ready)
    (hw : (Stream.write data).Ensures w.stream (fun _ t => Q () { w with stream := t })
      fun e t => E e { w with stream := t }) : (put data).Ensures w Q E := by
  unfold put onStream
  rw [Effect.ensures_bind, Effect.ensures_focus]
  apply hw.post
  intro _ t hq
  have steady : w.written?.map (· + data.length) = w.written? := by
    rw [h.tells]
    rfl
  rw [Effect.ensures_modify]
  change Q () { w with stream := t, written? := w.written?.map (· + data.length) }
  rw [steady]
  exact hq

theorem ensures_put (h : w.Ready) (hb : w.stream.Behind before bytes)
    (hq : ∀ t, t.Behind before (bytes ++ data) → Q () { w with stream := t }) :
    (put data).Ensures w Q E :=
  ensures_put_of_write h (Stream.ensures_write_behind hb hq)

theorem ensures_position {Q : Nat → Writer → Prop} (h : w.Ready) (hb : w.stream.Behind before bytes)
    (hq : ∀ t, t.Behind before bytes → Q bytes.length { w with stream := t }) :
    position.Ensures w Q E := by
  unfold position onStream
  rw [Effect.ensures_bind, Effect.ensures_get, h.tells]
  dsimp only
  rw [Effect.ensures_focus]
  apply Stream.ensures_tell hb.healthy
  intro calls
  have behind : (w.stream.after calls w.stream.content w.stream.position).Behind before bytes :=
    ⟨hb.healthy.after _ _ _, hb.front, hb.position, hb.reach⟩
  rw [← hb.position] at hq
  exact hq _ behind

theorem ensures_goTo (h : w.Ready) (hf : Stream.front w.stream.content bytes.length = bytes)
    (hr : before.Reaches w.stream.content bytes)
    (hq : ∀ t, t.Behind before bytes → Q () { w with stream := t })
    (hE : Stream.sizeLimit ≤ bytes.length →
      ∀ t, t.Healthy → E .sizeOverflow { w with stream := t }) :
    (goTo bytes.length).Ensures w Q E := by
  unfold goTo onStream
  rw [Effect.ensures_bind, Effect.ensures_get, if_pos h.rewinds, Effect.ensures_focus]
  exact Stream.ensures_seek_behind h.healthy hf hr hq hE

/-- What is left of a writer after a failure. -/
def Failed (e : Error) (w : Writer) : Prop := e.IsOverflow ∧ w.Ready

theorem Ready.onto (h : w.Ready) {t : Stream} (ht : t.Healthy) : { w with stream := t }.Ready :=
  ⟨ht, h.rewinds, h.tells⟩

theorem length_headerWith_eq (m : Member) (a b c a' b' c' : Nat) :
    (m.headerWith a b c).length = (m.headerWith a' b' c').length := by
  rw [Member.length_headerWith, Member.length_headerWith]

theorem headerWith_ne_nil (m : Member) (crc stored size : Nat) : m.headerWith crc stored size ≠ [] := by
  intro h
  have := congrArg List.length h
  rw [Member.length_headerWith] at this
  simp [localHeaderSize] at this

theorem ensures_finish {m : Member} {content : Bytes} (h : w.Ready) (hc : w.closed = false)
    (plain : m.described = false) (ho : m.headerOffset = bytes.length)
    (hb : w.stream.Behind before (bytes ++ m.pendingHeader ++ content))
    (hq : ∀ w', w'.Laid before (bytes ++ m.localHeader ++ content) → w'.members = w.members ++ [m] →
      Q () w')
    (hE : Stream.sizeLimit ≤ (bytes ++ m.localHeader ++ content).length →
      ∀ e w', Failed e w' → E e w') : (finish m).Ensures w Q E := by
  have length : (bytes ++ m.localHeader ++ content).length =
      (bytes ++ m.pendingHeader ++ content).length := by
    simp [Member.localHeader, Member.pendingHeader]
  unfold finish
  rw [plain]
  simp only [Bool.false_eq_true, if_false]
  rw [Effect.ensures_bind]
  apply ensures_position h hb
  intro t ht
  rw [Effect.ensures_bind, Effect.ensures_modify, Effect.ensures_bind]
  unfold onStream
  rw [Effect.ensures_focus, ho]
  apply Stream.ensures_seek ht.healthy
  · intro calls _
    rw [Effect.ensures_bind]
    have ready : ({ w with
        stream := t.after calls t.content bytes.length
        directoryStart := (bytes ++ m.pendingHeader ++ content).length } : Writer).Ready :=
      ⟨ht.healthy.after _ _ _, h.rewinds, h.tells⟩
    apply ensures_put_of_write ready
    -- The complete header takes the place of the pending one, which is as long.
    have full : m.localHeader ≠ [] := headerWith_ne_nil m _ _ _
    apply Stream.ensures_write_within ready.healthy full ht.front rfl
      (length_headerWith_eq m _ _ _ _ _ _) ht.reach
    intro u hu hf hr
    rw [Effect.ensures_bind, Effect.ensures_focus, ← length]
    apply Stream.ensures_seek_behind hu hf hr
    · intro v hv
      rw [Effect.ensures_modify]
      exact hq _ ⟨⟨hv.healthy, h.rewinds, h.tells⟩, hc, hv.front, rfl, hv.reach⟩ rfl
    · intro past v hv
      exact hE past _ _ ⟨.inr rfl, hv, h.rewinds, h.tells⟩
  · intro past calls
    have behind : bytes.length ≤ (bytes ++ m.localHeader ++ content).length := by
      simp only [List.length_append]
      omega
    exact hE (Nat.le_trans past behind) _ _ ⟨.inr rfl, ht.healthy.after _ _ _, h.rewinds, h.tells⟩

/-- Whether a member's name and extra field can be written. -/
def Writable (m : Member) : Prop := m.nameBytes.length ≤ 65535 ∧ m.extra.length ≤ 65535

theorem checkHeader_eq {m : Member} (strict : m.storedName.IsStrict) :
    checkHeader m = .ok () ∧ Writable m ∨ checkHeader m = .error .fieldOverflow ∧ ¬ Writable m := by
  unfold checkHeader Writable
  rw [Text.strictUtf8?_eq strict]
  simp only [Option.isNone_some, Bool.false_eq_true, if_false]
  split
  · exact .inr ⟨rfl, by omega⟩
  · exact .inl ⟨rfl, by omega⟩

theorem ensures_add {name : Text} {extra content : Bytes} (h : w.Laid before bytes)
    (strict : (Member.at name extra content bytes.length).storedName.IsStrict)
    (hq : ∀ w', let m := Member.at name extra content bytes.length
      Writable m → w'.Laid before (bytes ++ m.localHeader ++ content) → w'.members = w.members ++ [m] →
      Q () w')
    (hE : (let m := Member.at name extra content bytes.length
        Writable m → Stream.sizeLimit ≤ (bytes ++ m.localHeader ++ content).length) →
      ∀ e w', Failed e w' → E e w') : (add name extra content).Ensures w Q E := by
  unfold add
  rw [Effect.ensures_bind, Effect.ensures_get, h.opened]
  simp only [Bool.false_eq_true, if_false]
  rw [Effect.ensures_bind, h.start]
  apply ensures_goTo h.ready h.front h.reach
  · intro t ht
    rw [Effect.ensures_bind]
    apply ensures_position (h.ready.onto ht.healthy) ht
    intro u hu
    have plain : (!w.rewinds) = false := by
      rw [h.ready.rewinds]
      rfl
    rw [plain]
    change Effect.Ensures (do
      Effect.ofExcept (checkHeader (Member.at name extra content bytes.length))
      put (Member.at name extra content bytes.length).pendingHeader
      Effect.andFinally (put content) (finish (Member.at name extra content bytes.length))) _ _ _
    rw [Effect.ensures_bind]
    obtain ⟨hc, writable⟩ | ⟨hc, unwritable⟩ := checkHeader_eq strict
    · rw [hc, Effect.ensures_ofExcept_ok, Effect.ensures_bind]
      apply ensures_put (h.ready.onto hu.healthy) hu
      intro v hv
      rw [Effect.ensures_andFinally]
      apply ensures_put (h.ready.onto hv.healthy) hv
      intro x hx
      exact ensures_finish (h.ready.onto hx.healthy) h.opened rfl rfl hx
        (fun w' laid members => hq w' writable laid members) fun past => hE fun _ => past
    · rw [hc, Effect.ensures_ofExcept_error]
      exact hE (absurd · unwritable) _ _ ⟨.inl rfl, h.ready.onto hu.healthy⟩
  · intro past t ht
    refine hE (fun _ => Nat.le_trans past ?_) _ _ ⟨.inr rfl, h.ready.onto ht⟩
    simp only [List.length_append]
    omega

/-- The central directory of members. -/
def directory (members : List Member) : Bytes := members.flatMap Member.centralEntry

/-- A whole archive behind other bytes: its members, the directory and the end record. -/
def finished (bytes : Bytes) (members : List Member) : Bytes :=
  bytes ++ directory members ++ endRecord members.length (directory members).length bytes.length

/-- The entry of a member in the directory. -/
def putEntry (m : Member) : Writing Unit := do
  put m.centralFields
  put m.nameBytes
  put m.extra
  put []

theorem writeDirectory_eq : writeDirectory = (do
    let w ← get
    w.members.forM putEntry
    let stop ← position
    let start := (← get).directoryStart
    put (endRecord w.members.length (stop - start) start)
    put []) := by
  unfold writeDirectory
  congr 1
  funext w
  rw [← Effect.forIn_eq_forM]
  simp only [putEntry, bind_assoc]

theorem ensures_putEntry {m : Member} (h : w.Ready) (hb : w.stream.Behind before bytes)
    (hq : ∀ t, t.Behind before (bytes ++ m.centralEntry) → Q () { w with stream := t }) :
    (putEntry m).Ensures w Q E := by
  unfold putEntry
  rw [Effect.ensures_bind]
  apply ensures_put h hb
  intro t ht
  rw [Effect.ensures_bind]
  apply ensures_put (h.onto ht.healthy) ht
  intro u hu
  rw [Effect.ensures_bind]
  apply ensures_put (h.onto hu.healthy) hu
  intro v hv
  apply ensures_put (h.onto hv.healthy) hv
  intro x hx
  apply hq
  simpa [Member.centralEntry] using hx

theorem ensures_entries {members : List Member} (h : w.Ready) (hb : w.stream.Behind before bytes)
    (hq : ∀ t, t.Behind before (bytes ++ directory members) → Q () { w with stream := t }) :
    (members.forM putEntry).Ensures w Q E := by
  induction members generalizing w bytes with
  | nil =>
    apply (Effect.ensures_pure _).2
    apply hq w.stream
    simpa [directory] using hb
  | cons m members ih =>
    rw [Effect.ensures_forM_cons]
    apply ensures_putEntry h hb
    intro t ht
    apply ih (h.onto ht.healthy) ht
    intro u hu
    apply hq u
    simpa [directory] using hu

theorem ensures_writeDirectory (h : w.Ready) (hb : w.stream.Behind before bytes)
    (start : w.directoryStart = bytes.length)
    (hq : ∀ t, t.Behind before (finished bytes w.members) → Q () { w with stream := t }) :
    writeDirectory.Ensures w Q E := by
  rw [writeDirectory_eq, Effect.ensures_bind, Effect.ensures_get, Effect.ensures_bind]
  apply ensures_entries h hb
  intro t ht
  rw [Effect.ensures_bind]
  apply ensures_position (h.onto ht.healthy) ht
  intro u hu
  rw [Effect.ensures_bind, Effect.ensures_get, Effect.ensures_bind]
  apply ensures_put (h.onto hu.healthy) hu
  intro v hv
  apply ensures_put (h.onto hv.healthy) hv
  intro x hx
  apply hq
  simpa [finished, start] using hx

theorem ensures_close (h : w.Laid before bytes)
    (hq : ∀ w', w'.Ready → w'.stream.Behind before (finished bytes w.members) →
      w'.members = w.members → Q () w')
    (hE : Stream.sizeLimit ≤ bytes.length → ∀ e w', Failed e w' → E e w') :
    close.Ensures w Q E := by
  unfold close
  rw [Effect.ensures_bind, Effect.ensures_get, h.opened]
  simp only [Bool.false_eq_true, if_false]
  rw [Effect.ensures_andFinally, Effect.ensures_bind, h.start]
  apply ensures_goTo h.ready h.front h.reach
  · intro t ht
    apply ensures_writeDirectory (h.ready.onto ht.healthy) ht h.start
    intro u hu
    rw [Effect.ensures_modify]
    exact hq _ ⟨hu.healthy, h.ready.rewinds, h.ready.tells⟩ hu rfl
  · intro past t ht
    rw [Effect.ensures_modify]
    exact hE past _ _ ⟨.inr rfl, ht, h.ready.rewinds, h.ready.tells⟩

section Failures

/-! What a writer does wherever its stream stands. -/

theorem ready_put (h : w.Ready) (hq : ∀ w', w'.Ready → Q () w') : (put data).Ensures w Q E := by
  apply ensures_put_of_write h
  apply Stream.ensures_write h.healthy.steady
  exact fun calls => hq _ ⟨h.healthy.after _ _ _, h.rewinds, h.tells⟩

theorem ready_entries {members : List Member} (h : w.Ready) (hq : ∀ w', w'.Ready → Q () w') :
    (members.forM putEntry).Ensures w Q E := by
  induction members generalizing w with
  | nil => exact (Effect.ensures_pure _).2 (hq w h)
  | cons m members ih =>
    rw [Effect.ensures_forM_cons]
    unfold putEntry
    simp only [Effect.ensures_bind]
    exact ready_put h fun _ h => ready_put h fun _ h => ready_put h fun _ h => ready_put h fun _ h =>
      ih h

theorem ready_close (h : w.Ready) (hq : ∀ w', w'.Ready → Q () w')
    (hE : ∀ e w', Failed e w' → E e w') : close.Ensures w Q E := by
  have closed (w' : Writer) (h' : w'.Ready) : ({ w' with closed := true } : Writer).Ready :=
    ⟨h'.healthy, h'.rewinds, h'.tells⟩
  unfold close
  rw [Effect.ensures_bind, Effect.ensures_get]
  split
  · exact (Effect.ensures_pure _).2 (hq w h)
  rw [Effect.ensures_andFinally, Effect.ensures_bind]
  unfold goTo onStream
  rw [Effect.ensures_bind, Effect.ensures_get, if_pos h.rewinds, Effect.ensures_focus]
  apply Stream.ensures_seek h.healthy
  · intro calls _
    rw [writeDirectory_eq, Effect.ensures_bind, Effect.ensures_get, Effect.ensures_bind]
    apply ready_entries (h.onto (h.healthy.after _ _ _))
    intro w₁ h₁
    rw [Effect.ensures_bind]
    unfold position onStream
    rw [Effect.ensures_bind, Effect.ensures_get, h₁.tells]
    dsimp only
    rw [Effect.ensures_focus]
    apply Stream.ensures_tell h₁.healthy
    intro calls'
    rw [Effect.ensures_bind, Effect.ensures_get, Effect.ensures_bind]
    apply ready_put (h₁.onto (h₁.healthy.after _ _ _))
    intro w₂ h₂
    apply ready_put h₂
    intro w₃ h₃
    rw [Effect.ensures_modify]
    exact hq _ (closed _ h₃)
  · intro _ calls
    rw [Effect.ensures_modify]
    exact hE _ _ ⟨.inr rfl, closed _ (h.onto (h.healthy.after _ _ _))⟩

end Failures

end Writer

end Zip

end Checkpoint
