import Checkpoint.Proofs.Pickle.Following

/-! How a machine replays what is written.  A law for each way of writing says what its instructions
leave on the stack. -/

namespace Checkpoint.Pickle

open Archive Effect Encoder

section Instructions

variable {S : Scene} {N M : Nat → Prop} {e e' e'' : Encoder} {x : Encoding Unit} {i : Instruction}
  {o : Identity} {I J : Image} {f : Stack → Stack} {P : World → Machine → Prop}
  {R T : World → Machine → World → Machine → Prop}

/-- An instruction that neither ends the stream nor makes a reference. -/
def Instruction.Ordinary (i : Instruction) : Prop := i ≠ .stop ∧ i ≠ .persistentId

/-- What running one instruction makes of a state of the machine. -/
def Steps (S : Scene) (e e' : Encoder) (i : Instruction) (P : World → Machine → Prop)
    (R T : World → Machine → World → Machine → Prop) : Prop :=
  ∀ w m w₁ m₁ p next, P w m → R w m w₁ m₁ → Sim S e.memo w₁ p m₁ → p < next.position →
    e'.storages <+: S.uses →
    (Machine.execute S.config next i).Ensures m₁ (fun _ m₂ => ∀ trace, ∃ w₂,
      Sim S e'.memo w₂ next.position { m₂ with trace } ∧ T w m w₂ { m₂ with trace })
      fun error m' => Machine.IsLimit S.config error m'

theorem position_lt_of_spells {c next : Cursor} (h : c.Spells i.encode next) :
    c.position < next.position := by
  rw [h.position]
  change _ < _ + (i.opcode.code :: i.arguments).length
  simp

theorem Follows.concat {w : Written} (h : Follows S e e' P R)
    (hh : e''.history = e'.history ++ [w]) (hs : e'.storages = e''.storages)
    (readable : w.instruction.Readable) (going : w.instruction ≠ .stop)
    (refers : w.instruction = .persistentId →
      ∀ w m w' m', T w m w' m' → Machine.OnTop S.Refers m')
    (run : Steps S e' e'' w.instruction P R T) : Follows S e e'' P T := by
  obtain ⟨written, hw, hp, entered, before⟩ := h
  refine ⟨written ++ [w], by rw [hh, hw, List.append_assoc], hs ▸ hp, hs ▸ entered, ?_⟩
  intro hu w₀ c next m₀ sim hP spells
  rw [bytesOf_append, Cursor.spells_append] at spells
  obtain ⟨mid, first, second⟩ := spells
  have second : mid.Spells w.instruction.encode next := by
    simpa [bytesOf] using second
  apply (before (hs ▸ hu) w₀ c mid m₀ sim hP first).bind
  rintro _ m₁ ⟨rfl, w₁, sim₁, hR⟩
  apply Machine.arrives_execute readable going second
  apply (run w₀ m₀ w₁ m₁ _ next hP hR sim₁ (position_lt_of_spells second) hu).mono
  · intro _ m₂ h
    refine ⟨fun hp => ?_, fun trace => ⟨rfl, h trace⟩⟩
    obtain ⟨w₂, _, hT⟩ := h m₂.trace
    exact refers hp _ _ _ _ hT
  · intro _ _ hl
    exact hl

/-- An instruction that neither stores nor fetches is written after what a machine follows. -/
theorem Tracks.emit (h : Tracks S N e x P R) (plain : i.storedAt? = none ∧ i.fetchedAt? = none)
    (readable : i.Readable) (going : i ≠ .stop)
    (refers : i = .persistentId → ∀ w m w' m', T w m w' m' → Machine.OnTop S.Refers m')
    (run : ∀ e', Steps S e' e' i P R T) : Tracks S N e (x >>= fun _ => emit i) P T := by
  constructor
  rw [ensures_bind]
  apply h.ensures.post
  rintro _ e' ⟨⟨orderly, within⟩, follows⟩
  unfold Encoder.emit write
  rw [ensures_modify]
  obtain ⟨orderly', stores⟩ := orderly_write (w := { instruction := i }) orderly rfl
    (orderly.numbered.plain plain.1 plain.2)
  refine ⟨⟨orderly', fun id hid => within id (stores ▸ hid)⟩, ?_⟩
  refine follows.concat (w := { instruction := i }) ?_ ?_ readable going refers ?_
  · simp [history]
  · rfl
  · intro w m w₁ m₁ p next hP hR sim hp hu
    exact run e' w m w₁ m₁ p next hP hR sim hp hu

theorem tracks_pure (he : Orderly True e) : Tracks S N e (pure ()) P fun w m w' m' =>
    w' = w ∧ m' = m :=
  .of_keeps (stores_pure () e he)
    ((ensures_pure ()).2 (follows_refl fun _ _ _ => ⟨rfl, rfl⟩))

theorem tracks_emit (he : Orderly True e) (plain : i.storedAt? = none ∧ i.fetchedAt? = none)
    (readable : i.Readable) (going : i.Ordinary)
    (run : ∀ e', Steps S e' e' i P (fun w m w' m' => w' = w ∧ m' = m) R) :
    Tracks S N e (emit i) P R := by
  have h := (tracks_pure (S := S) (N := N) (P := P) he).emit plain readable going.1
    (fun hp => absurd hp going.2) run
  rwa [pure_bind] at h

/-- Pushing a value, whose birth may be recorded. -/
theorem writes_push (he : Orderly True e) (plain : i.storedAt? = none ∧ i.fetchedAt? = none)
    (readable : i.Readable) (going : i.Ordinary) {v : Nat → Value}
    (push : ∀ next, Machine.execute S.config next i = Machine.push S.config (v next.position))
    (image : ∀ memo w m p p', Sim S memo w p m → p < p' →
      ∃ w', Sim S memo w' p' m ∧ S.Grew w m.heap w' m.heap ∧ I w' m.heap [v p']) :
    Writes S N e (emit i) I := by
  apply tracks_emit he plain readable going
  rintro e' w m _ _ p next - ⟨rfl, rfl⟩ sim hp -
  obtain ⟨w', sim', grew, hI⟩ := image _ _ _ _ _ sim hp
  rw [push, Machine.ensures_push]
  split
  · next full => exact .inl ⟨rfl, full⟩
  · intro trace
    refine ⟨w', sim'.at le_rfl rfl le_rfl rfl, grew, [v next.position], hI, ?_⟩
    rfl

/-- Pushing a value that is the same wherever it is made. -/
theorem writes_constant (he : Orderly True e) (plain : i.storedAt? = none ∧ i.fetchedAt? = none)
    (readable : i.Readable) (going : i.Ordinary) {v : Value}
    (push : ∀ next, Machine.execute S.config next i = Machine.push S.config v) :
    Writes S N e (emit i) (.exactly v) := by
  apply writes_push (v := fun _ => v) he plain readable going push
  intro memo w m p p' sim hp
  exact ⟨w, sim.at hp.le rfl le_rfl rfl, .refl w _, rfl⟩

theorem Writes.andThen {y : Encoding Unit} (hx : Writes S N e x I) (hN : ∀ id, N id → M id)
    (hI : I.Stable S)
    (hy : ∀ e', Orderly True e' → StoresWithin N e e' → Writes S M e' y J) :
    Writes S M e (x >>= fun _ => y) (I.andThen J) := by
  apply Tracks.bind hx hN hy
  rintro w m w' m' - ⟨grew, a, ha, hs⟩
  refine ⟨trivial, ?_⟩
  rintro w'' m'' ⟨grew', b, hb, hs'⟩
  refine ⟨grew.trans grew' fun _ => False.elim, a ++ b, ?_, ?_⟩
  · exact ⟨a, b, rfl, hI _ _ _ _ _ ha grew', hb⟩
  · rw [hs', hs, Stack.above_append]
    rfl

theorem writes_forM {α : Type} {items : List α} {x : α → Encoding Unit} {K : α → Image}
    (he : Orderly True e) (hK : ∀ item ∈ items, (K item).Stable S)
    (hx : ∀ item ∈ items, ∀ e, Orderly True e → Writes S N e (x item) (K item)) :
    Writes S N e (items.forM x) (.all K items) := by
  induction items generalizing e with
  | nil =>
    apply (tracks_pure he).mono (fun _ h => h) (fun _ _ h => h)
    rintro w m _ _ - ⟨rfl, rfl⟩
    exact ⟨.refl _ _, [], rfl, rfl⟩
  | cons item items ih =>
    change Writes S N e (x item >>= fun _ => items.forM x) _
    apply (hx item List.mem_cons_self e he).andThen (fun _ h => h) (hK item List.mem_cons_self)
    intro e' he' _
    exact ih he' (fun i hi => hK i (List.mem_cons_of_mem _ hi))
      fun i hi => hx i (List.mem_cons_of_mem _ hi)

theorem Writes.mono (h : Writes S N e x I) (hN : ∀ id, N id → M id)
    (hI : ∀ w a values, I w a values → J w a values) : Writes S M e x J := by
  apply Tracks.mono h hN (fun _ _ h => h)
  rintro w m w' m' - ⟨grew, values, hv, hs⟩
  exact ⟨grew, values, hI _ _ _ hv, hs⟩

end Instructions

section Memo

variable {S : Scene} {N M : Nat → Prop} {e e' : Encoder} {x : Encoding Unit} {i : Instruction}
  {o : Identity} {I : Image} {P : World → Machine → Prop}
  {R T : World → Machine → World → Machine → Prop}

theorem put_spec {n : Nat} (h : putInstruction n = .ok i) : i.Readable ∧ i.Ordinary ∧
    ∀ config c, Machine.execute config c i = Machine.memoPut config c n := by
  obtain ⟨k, rfl, rfl⟩ | ⟨k, rfl, rfl⟩ := memoInstruction_eq_ok h
  · exact ⟨trivial, ⟨nofun, nofun⟩, fun _ _ => rfl⟩
  · exact ⟨trivial, ⟨nofun, nofun⟩, fun _ _ => rfl⟩

theorem get_spec {n : Nat} (h : getInstruction n = .ok i) : i.Readable ∧ i.Ordinary ∧
    ∀ config c, Machine.execute config c i = Machine.memoGet config n := by
  obtain ⟨k, rfl, rfl⟩ | ⟨k, rfl, rfl⟩ := memoInstruction_eq_ok h
  · exact ⟨trivial, ⟨nofun, nofun⟩, fun _ _ => rfl⟩
  · exact ⟨trivial, ⟨nofun, nofun⟩, fun _ _ => rfl⟩

/-- What storing the value on top leads to. -/
def Stored (S : Scene) (memo : Table Identity Nat) (o : Identity) (P : World → Machine → Prop)
    (R T : World → Machine → World → Machine → Prop) : Prop :=
  ∀ w m w₁ m₁, P w m → R w m w₁ m₁ → ∃ v below, m₁.stack.items = v :: below ∧
    ∀ p p' trace, Sim S memo w₁ p m₁ → p ≤ p' →
      let m₂ := { m₁ with memo := m₁.memo.insert memo.size v, trace }
      ∃ w₂, Sim S (memo.insert o memo.size) w₂ p' m₂ ∧ T w m w₂ m₂

/-- The nodes that are stored since are those that were stored before, and an object. -/
theorem Follows.memoize (h : Follows S e e' P R) (orderly : Orderly True e')
    (absent : o ∉ storesOf e'.history) (temporary : ∀ n, o = .temporary n → n < e'.temporaries)
    (stored : Stored S e'.memo o P R T) :
    (memoize o).Ensures e' (fun _ e'' => (Orderly True e'' ∧ StoresWithin (o = .node ·) e' e'') ∧
      Follows S e e'' P T) fun _ _ => True := by
  unfold Encoder.memoize emitFor
  simp only [ensures_bind, ensures_get]
  cases hi : putInstruction e'.memo.size with
  | error error => exact (ensures_ofExcept_error error).2 trivial
  | ok i =>
    simp only [write, ensures_ofExcept_ok, ensures_modify]
    obtain ⟨readable, going, run⟩ := put_spec hi
    obtain ⟨orderly', stores⟩ := orderly_memoize orderly (putInstruction_eq_ok hi) (fun _ => absent)
      temporary
    refine ⟨⟨orderly', ?_⟩, ?_⟩
    · intro id hid
      rw [stores, List.mem_append, List.mem_singleton] at hid
      exact hid.imp_right Eq.symm
    · refine h.concat (w := { instruction := i, object := some o }) ?_ ?_ readable
        going.1 (fun hp => absurd hp going.2) ?_
      · simp [history]
      · rfl
      · intro w m w₁ m₁ p next hP hR sim hp _
        obtain ⟨v, below, hs, hv⟩ := stored w m w₁ m₁ hP hR
        rw [run, Machine.ensures_memoPut]
        split
        -- The machine refuses a memo that is full; that is one of its limits.
        · next full =>
          rw [Bool.and_eq_true, decide_eq_true_eq] at full
          exact .inr ⟨rfl, full.2⟩
        · rw [Machine.ensures_top, hs]
          intro trace
          exact hv p next.position trace sim hp.le

theorem Tracks.memoize {id : Nat} (h : Tracks S N e x P R) (hN : ∀ id, N id → M id)
    (absent : .node id ∉ storesOf e.history) (outside : ¬ N id) (inside : M id)
    (stored : ∀ memo, memo.contains (.node id) = false → Stored S memo (.node id) P R T) :
    Tracks S M e (x >>= fun _ => Encoder.memoize (.node id)) P T := by
  constructor
  rw [ensures_bind]
  apply h.ensures.post
  rintro _ e' ⟨⟨orderly, within⟩, follows⟩
  have unstored : .node id ∉ storesOf e'.history := fun hid => (within id hid).elim absent outside
  have free : e'.memo.contains (.node id) = false := by
    rw [← Bool.not_eq_true, orderly.contains]
    exact unstored
  apply (follows.memoize orderly unstored nofun (stored _ free)).post
  rintro _ e'' ⟨⟨orderly', within'⟩, follows'⟩
  refine ⟨⟨orderly', (within.mono hN).trans (within'.mono ?_)⟩, follows'⟩
  rintro _ ⟨⟩
  exact inside

theorem Tracks.memoizeFresh (h : Tracks S N e x P R)
    (stored : ∀ memo n, memo.contains (.temporary n) = false →
      Stored S memo (.temporary n) P R T) :
    Tracks S N e (x >>= fun _ => Encoder.memoizeFresh) P T := by
  constructor
  rw [ensures_bind]
  apply h.ensures.post
  rintro _ e' ⟨⟨orderly, within⟩, follows⟩
  let e₁ := { e' with temporaries := e'.temporaries + 1 }
  have orderly₁ : Orderly True e₁ := by
    refine ⟨orderly.memo, orderly.numbered, orderly.nodup, ?_⟩
    intro n hn
    exact Nat.lt_succ_of_lt (orderly.temporary n hn)
  have absent : .temporary e'.temporaries ∉ storesOf e₁.history :=
    fun hn => lt_irrefl _ (orderly.temporary _ hn)
  have free : e₁.memo.contains (.temporary e'.temporaries) = false := by
    rw [← Bool.not_eq_true, orderly₁.contains]
    exact absent
  have follows₁ : Follows S e e₁ P R := follows
  unfold Encoder.memoizeFresh fresh
  simp only [ensures_bind, ensures_get, ensures_modify, ensures_pure]
  apply (follows₁.memoize orderly₁ absent ?_ (stored _ _ free)).post
  · rintro _ e'' ⟨⟨orderly', within'⟩, follows'⟩
    exact ⟨⟨orderly', within.trans (within'.mono fun _ same => by cases same)⟩, follows'⟩
  · rintro _ ⟨⟩
    exact Nat.lt_succ_self _

theorem tracks_new {r : Except Error Instruction} (he : Orderly True e)
    (good : ∀ i, r = .ok i → (i.storedAt? = none ∧ i.fetchedAt? = none) ∧ i.Readable ∧ i.Ordinary)
    (absent : o ∉ storesOf e.history) (temporary : ∀ n, o = .temporary n → n < e.temporaries)
    (node : ∀ id, o = .node id → N id)
    (run : ∀ i, r = .ok i → Steps S e e i P (fun w m w' m' => w' = w ∧ m' = m) R)
    (stored : ∀ memo, memo.contains o = false → Stored S memo o P R T) :
    Tracks S N e (emitChecked r >>= fun _ => Encoder.memoize o) P T := by
  constructor
  rw [ensures_bind]
  unfold emitChecked Encoder.emit write
  cases hr : r with
  | error error =>
    simp only [ensures_bind, ensures_ofExcept_error]
  | ok i =>
    obtain ⟨plain, readable, going⟩ := good i hr
    obtain ⟨orderly, stores⟩ := orderly_write (w := { instruction := i }) he rfl
      (he.numbered.plain plain.1 plain.2)
    simp only [ensures_bind, ensures_ofExcept_ok, ensures_modify]
    have follows : Follows S e { e with output := { instruction := i } :: e.output } P R := by
      refine Follows.concat (w := { instruction := i })
        (follows_refl (R := fun w m w' m' => w' = w ∧ m' = m) fun _ _ _ => ⟨rfl, rfl⟩)
        ?_ ?_ readable going.1 (fun hp => absurd hp going.2) (run i hr)
      · simp [history]
      · rfl
    have free : e.memo.contains o = false := by
      rw [← Bool.not_eq_true, he.contains]
      exact absent
    apply (follows.memoize orderly (stores ▸ absent) temporary (stored _ free)).post
    rintro _ e'' ⟨⟨orderly', within⟩, follows'⟩
    refine ⟨⟨orderly', ?_⟩, follows'⟩
    intro id hid
    rw [← stores]
    exact (within id hid).imp_right (node id)

/-- A single value that stands for an object is stored as it is. -/
theorem stored_pushed {memo : Table Identity Nat} (absent : memo.contains o = false)
    (stands : ∀ w a values, I w a values → ∃ v, values = [v] ∧ S.Stands w o v) :
    Stored S memo o P (Pushed S I) (Pushed S I) := by
  rintro w m w₁ m₁ - ⟨grew, values, hI, hs⟩
  obtain ⟨v, rfl, hv⟩ := stands _ _ _ hI
  refine ⟨v, m.stack.items, by rw [hs]; rfl, ?_⟩
  intro p p' trace sim hp
  exact ⟨w₁, sim.memoize absent hv hp trace, grew, [v], hI, hs⟩

theorem writes_fetch {n : Nat} (he : Orderly True e) (ho : e.memo.get? o = some n) :
    Writes S N e (emitFor o (getInstruction n)) (.standing S o) := by
  apply Tracks.of_keeps (keeps_fetch he ho)
  unfold emitFor
  rw [ensures_bind]
  cases hi : getInstruction n with
  | error error => exact (ensures_ofExcept_error error).2 trivial
  | ok i =>
    obtain ⟨readable, going, run⟩ := get_spec hi
    simp only [write, ensures_ofExcept_ok, ensures_modify]
    refine Follows.concat (w := { instruction := i, object := some o })
      (follows_refl (R := fun w m w' m' => w' = w ∧ m' = m) fun _ _ _ => ⟨rfl, rfl⟩)
      ?_ ?_ readable going.1 (fun hp => absurd hp going.2) ?_
    · simp [history]
    · rfl
    · rintro w m _ _ p next - ⟨rfl, rfl⟩ sim hp -
      obtain ⟨v, hv, hs⟩ := sim.stands o n ho
      rw [run, Machine.ensures_memoGet, hv]
      dsimp only
      rw [Machine.ensures_push]
      split
      · next full => exact .inl ⟨rfl, full⟩
      · intro trace
        exact ⟨_, sim.at hp.le rfl le_rfl rfl, .refl _ _, [v], ⟨v, rfl, hs⟩, rfl⟩

theorem writes_once (he : Orderly True e)
    (fetched : ∀ n, e.memo.get? o = some n → ∀ w a values, Image.standing S o w a values →
      I w a values)
    (hx : o ∉ storesOf e.history → Writes S N e x I) : Writes S N e (once o x) I := by
  constructor
  unfold once
  simp only [ensures_bind, ensures_get]
  cases ho : e.memo.get? o with
  | some n => exact ((writes_fetch he ho).mono (fun _ h => h) (fetched n ho)).ensures
  | none => exact (hx (he.not_mem ho)).ensures

end Memo

/-- An instruction that pushes a value, and does nothing to a memo. -/
structure Instruction.Pushes (i : Instruction) (v : Value) : Prop where
  stored : i.storedAt? = Option.none
  fetched : i.fetchedAt? = Option.none
  readable : i.Readable
  going : i.Ordinary
  run : ∀ config c, Machine.execute config c i = Machine.push config v

section Scalars

variable {S : Scene} {N : Nat → Prop} {e : Encoder} {o : Identity} {r : Except Error Instruction}
  {v : Value}

/-- An object that is made by one instruction, unless it is fetched. -/
theorem writes_made (he : Orderly True e) (good : ∀ i, r = .ok i → i.Pushes v)
    (temporary : ∀ n, o = .temporary n → n < e.temporaries) (node : ∀ id, o = .node id → N id)
    (stands : ∀ w, S.Stands w o v)
    (only : ∀ n, e.memo.get? o = some n → ∀ w v', S.Stands w o v' → v' = v) :
    Writes S N e (once o (emitChecked r >>= fun _ => Encoder.memoize o)) (.exactly v) := by
  apply writes_once he
  · rintro n hn w _ _ ⟨v', rfl, hv⟩
    rw [only n hn w v' hv]
    rfl
  · intro absent
    refine tracks_new (R := Pushed S (.exactly v)) he ?_ absent temporary node ?_ ?_
    · intro i hi
      have pushes := good i hi
      exact ⟨⟨pushes.stored, pushes.fetched⟩, pushes.readable, pushes.going⟩
    · rintro i hi w m _ _ p next - ⟨rfl, rfl⟩ sim hp -
      rw [(good i hi).run, Machine.ensures_push]
      split
      · next full => exact .inl ⟨rfl, full⟩
      · intro trace
        exact ⟨_, sim.at hp.le rfl le_rfl rfl, .refl _ _, [v], rfl, rfl⟩
    · intro memo free
      apply stored_pushed free
      rintro w _ _ rfl
      exact ⟨v, rfl, stands w⟩

theorem writes_checked (he : Orderly True e) (good : ∀ i, r = .ok i → i.Pushes v) :
    Writes S N e (emitChecked r) (.exactly v) := by
  cases r with
  | error error =>
    refine .of_keeps (stores_emitChecked (r := .error error) nofun e he) ?_
    unfold emitChecked
    simp only [ensures_bind, ensures_ofExcept_error]
  | ok i =>
    have pushes := good i rfl
    exact writes_constant he ⟨pushes.stored, pushes.fetched⟩ pushes.readable pushes.going
      (pushes.run S.config)

theorem pushes_textInstruction {t : Text} {i : Instruction} (h : textInstruction t = .ok i) :
    i.Pushes (.text t) := by
  unfold textInstruction at h
  split at h <;> cases h
  next fits => exact ⟨rfl, rfl, fits, ⟨nofun, nofun⟩, fun _ _ => rfl⟩

theorem pushes_intInstruction {n : Int} {i : Instruction} (h : intInstruction n = .ok i) :
    i.Pushes (.int n) := by
  unfold intInstruction at h
  split at h
  · cases h
    have value : ((UInt8.ofNat n.toNat).toNat : Int) = n := by
      rw [UInt8.toNat_ofNat']
      omega
    exact ⟨rfl, rfl, trivial, ⟨nofun, nofun⟩, fun _ _ => by simp only [Machine.execute, value]⟩
  · split at h
    · cases h
      have value : ((UInt16.ofNat n.toNat).toNat : Int) = n := by
        rw [UInt16.toNat_ofNat']
        omega
      exact ⟨rfl, rfl, trivial, ⟨nofun, nofun⟩, fun _ _ => by simp only [Machine.execute, value]⟩
    · split at h
      · cases h
        have value : (Int32.ofInt n).toInt = n := Int32.toInt_ofInt_of_le (by omega) (by omega)
        exact ⟨rfl, rfl, trivial, ⟨nofun, nofun⟩, fun _ _ => by simp only [Machine.execute, value]⟩
      · dsimp only at h
        split at h <;> cases h
        refine ⟨rfl, rfl, ?_, ⟨nofun, nofun⟩, fun _ _ => rfl⟩
        change (Bytes.littleEndianSigned _ n).length < 256
        rw [Bytes.length_littleEndianSigned]
        omega

theorem writes_saveText {t : Text} (he : Orderly True e)
    (temporary : ∀ n, o = .temporary n → n < e.temporaries) (node : ∀ id, o = .node id → N id)
    (stands : ∀ w, S.Stands w o (.text t))
    (only : ∀ n, e.memo.get? o = some n → ∀ w v, S.Stands w o v → v = .text t) :
    Writes S N e (saveText o t) (.exactly (.text t)) :=
  writes_made he (fun _ hi => pushes_textInstruction hi) temporary node stands only

theorem writes_saveGlobal {module name : Text} (he : Orderly True e)
    (hm : Instruction.IsLine module) (hn : Instruction.IsLine name)
    (found : findGlobal module name = .ok v) :
    Writes S N e (saveGlobal module name) (.exactly v) := by
  refine writes_made (r := .ok (.global module name)) he ?_ nofun nofun (fun _ => found) ?_
  · rintro i ⟨⟩
    refine ⟨rfl, rfl, ⟨hm, hn⟩, ⟨nofun, nofun⟩, fun _ _ => ?_⟩
    simp only [Machine.execute, Machine.pushGlobal, found]
  · intro n _ w v' hv
    exact Except.ok.inj (hv.symm.trans found)

theorem writes_saveInt (he : Orderly True e) (n : Int) :
    Writes S N e (saveInt n) (.exactly (.int n)) :=
  writes_checked he fun _ hi => pushes_intInstruction hi

end Scalars

end Checkpoint.Pickle
