import Checkpoint.Proofs.Effect
import Checkpoint.Proofs.Pickle.Batches
import Checkpoint.Proofs.Pickle.MemoHistory
import Checkpoint.Proofs.Pickle.Parts
import Mathlib.Logic.Relation

/-! The memo of a graph's writing.  Its numbers come from what has been stored; a tuple that reaches
itself is stored twice, and then two objects may have one number. -/

namespace Checkpoint.Pickle

namespace Graph

/-- One object stands in another. -/
def Holds (g : Graph) (id item : Nat) : Prop :=
  match g.node id with
  | .tuple items | .list items => item ∈ items
  | .dict entries => ∃ entry ∈ entries, item = entry.1 ∨ item = entry.2
  | .ordered entries attributes =>
    (∃ entry ∈ entries, item = entry.1 ∨ item = entry.2) ∨ item ∈ attributes.map Prod.snd
  | _ => False

def Reaches (g : Graph) : Nat → Nat → Prop := Relation.ReflTransGen g.Holds

/-- No tuple under an object reaches itself. -/
def TuplesGrounded (g : Graph) (top : Nat) : Prop :=
  ∀ id items, g.Reaches top id → g.node id = .tuple items → ¬ Relation.TransGen g.Holds id id

variable {g : Graph} {id : Nat}

theorem holds_of_tuple {items : List Nat} (h : g.node id = .tuple items) :
    ∀ item ∈ items, g.Holds id item := by
  simp only [Holds, h]
  exact fun _ hi => hi

theorem holds_of_list {items : List Nat} (h : g.node id = .list items) :
    ∀ item ∈ items, g.Holds id item := by
  simp only [Holds, h]
  exact fun _ hi => hi

theorem holds_of_dict {entries : List (Nat × Nat)} (h : g.node id = .dict entries) :
    ∀ entry ∈ entries, g.Holds id entry.1 ∧ g.Holds id entry.2 := by
  simp only [Holds, h]
  exact fun entry he => ⟨⟨entry, he, .inl rfl⟩, ⟨entry, he, .inr rfl⟩⟩

section

variable {entries : List (Nat × Nat)} {attributes : List (Text × Nat)}

theorem holds_of_ordered (h : g.node id = .ordered entries attributes) :
    ∀ entry ∈ entries, g.Holds id entry.1 ∧ g.Holds id entry.2 := by
  simp only [Holds, h]
  exact fun entry he => ⟨.inl ⟨entry, he, .inl rfl⟩, .inl ⟨entry, he, .inr rfl⟩⟩

theorem holds_of_attribute (h : g.node id = .ordered entries attributes) :
    ∀ a ∈ attributes, g.Holds id a.2 := by
  simp only [Holds, h]
  exact fun _ ha => .inr (List.mem_map_of_mem ha)

end

end Graph

namespace Encoder

/-- What has been written, in order. -/
def history (e : Encoder) : List Written := e.output.reverse

/-- The memo is what the stores have made of it; under a condition nothing has been stored twice. -/
structure Orderly (P : Prop) (e : Encoder) : Prop where
  memo : e.memo = memoAfter e.history
  numbered : Numbered e.history
  nodup : P → (storesOf e.history).Nodup
  temporary : ∀ n, .temporary n ∈ storesOf e.history → n < e.temporaries

/-- Of the nodes, only some have been stored since. -/
def StoresWithin (N : Nat → Prop) (e e' : Encoder) : Prop :=
  ∀ id, .node id ∈ storesOf e'.history → .node id ∈ storesOf e.history ∨ N id

/-- From a state, an action keeps the memo orderly and stores only some of the nodes. -/
structure Keeps (P : Prop) (N : Nat → Prop) (e : Encoder) (x : Encoding α) : Prop where
  ensures : x.Ensures e (fun _ e' => Orderly P e' ∧ StoresWithin N e e') fun _ _ => True

/-- An action keeps the memo orderly from every orderly state. -/
def Stores (P : Prop) (N : Nat → Prop) (x : Encoding α) : Prop :=
  ∀ e, Orderly P e → Keeps P N e x

section Laws

variable {P : Prop} {N N' : Nat → Prop} {α β : Type} {e e' e'' : Encoder} {o : Identity}

theorem orderly_start : Orderly P {} where
  memo := rfl
  numbered := numbered_nil
  nodup _ := List.nodup_nil
  temporary _ h := by simp [history, storesOf] at h

theorem StoresWithin.refl (e : Encoder) : StoresWithin N e e :=
  fun _ h => .inl h

theorem StoresWithin.trans (h : StoresWithin N e e') (h' : StoresWithin N e' e'') :
    StoresWithin N e e'' := by
  intro id hid
  obtain hid | hid := h' id hid
  · exact h id hid
  · exact .inr hid

theorem StoresWithin.mono (h : StoresWithin N e e') (hN : ∀ id, N id → N' id) :
    StoresWithin N' e e' :=
  fun id hid => (h id hid).imp_right (hN id)

theorem Orderly.contains (h : Orderly P e) : e.memo.contains o = true ↔ o ∈ storesOf e.history := by
  rw [h.memo]
  exact contains_memoAfter _ _

theorem Orderly.not_mem (h : Orderly P e) (ho : e.memo.get? o = none) :
    o ∉ storesOf e.history := by
  rw [Table.get?_eq_none_iff] at ho
  rw [← h.contains, ho]
  exact Bool.false_ne_true

theorem Keeps.before {x : Encoding α} {f : α → Encoding β} (h : Keeps P N' e x)
    (hN : ∀ id, N' id → N id)
    (hf : ∀ a e', Orderly P e' → StoresWithin N' e e' → Keeps P N e' (f a)) :
    Keeps P N e (x >>= f) := by
  constructor
  rw [Effect.ensures_bind]
  refine Effect.Ensures.post h.ensures ?_
  intro a e' ⟨ho, hs⟩
  refine Effect.Ensures.post (hf a e' ho hs).ensures ?_
  intro _ e'' ⟨ho', hs'⟩
  exact ⟨ho', (hs.mono hN).trans hs'⟩

theorem Keeps.bind {x : Encoding α} {f : α → Encoding β} (h : Keeps P N e x)
    (hf : ∀ a e', Orderly P e' → Keeps P N e' (f a)) : Keeps P N e (x >>= f) :=
  h.before (fun _ hid => hid) fun a e' he' _ => hf a e' he'

theorem Keeps.mono {x : Encoding α} (h : Keeps P N e x) (hN : ∀ id, N id → N' id) :
    Keeps P N' e x :=
  ⟨Effect.Ensures.post h.ensures fun _ _ ⟨ho, hs⟩ => ⟨ho, hs.mono hN⟩⟩

theorem Stores.mono {x : Encoding α} (h : Stores P N x) (hN : ∀ id, N id → N' id) :
    Stores P N' x :=
  fun e he => (h e he).mono hN

theorem stores_pure (a : α) : Stores P N (pure a : Encoding α) :=
  fun e he => ⟨(Effect.ensures_pure a).2 ⟨he, .refl e⟩⟩

theorem stores_throw (error : Error) : Stores P N (throw error : Encoding α) :=
  fun _ _ => ⟨(Effect.ensures_throw error).2 trivial⟩

theorem Stores.bind {x : Encoding α} {f : α → Encoding β} (h : Stores P N x)
    (hf : ∀ a, Stores P N (f a)) : Stores P N (x >>= f) :=
  fun e he => (h e he).bind hf

theorem stores_forM {items : List α} {f : α → Encoding PUnit}
    (h : ∀ item ∈ items, Stores P N (f item)) : Stores P N (items.forM f) := by
  induction items with
  | nil => exact stores_pure _
  | cons item items ih =>
    change Stores P N (f item >>= fun _ => items.forM f)
    apply (h item List.mem_cons_self).bind
    intro _
    exact ih fun item' hi => h item' (List.mem_cons_of_mem _ hi)

end Laws

section Actions

variable {P : Prop} {N N' : Nat → Prop} {e : Encoder} {o : Identity}

theorem orderly_write {w : Written} (he : Orderly P e) (hs : w.stored? = none)
    (hn : Numbered (e.history ++ [w])) :
    let e' := { e with output := w :: e.output }
    Orderly P e' ∧ storesOf e'.history = storesOf e.history := by
  intro e'
  have hh : e'.history = e.history ++ [w] := by
    simp [e', history]
  have stores : storesOf e'.history = storesOf e.history := by
    rw [hh, storesOf_concat_of_none hs]
  refine ⟨⟨?_, ?_, ?_, ?_⟩, stores⟩
  · rw [hh, memoAfter_concat_of_none hs]
    exact he.memo
  · rwa [hh]
  · rw [stores]
    exact he.nodup
  · rw [stores]
    exact he.temporary

theorem keeps_write {w : Written} (he : Orderly P e) (hs : w.stored? = none)
    (hn : Numbered (e.history ++ [w])) : Keeps P N e (write w) := by
  obtain ⟨orderly, stores⟩ := orderly_write he hs hn
  constructor
  unfold write
  rw [Effect.ensures_modify]
  refine ⟨orderly, ?_⟩
  intro id hid
  rw [stores] at hid
  exact .inl hid

theorem stores_emit {i : Instruction} (hs : i.storedAt? = none) (hf : i.fetchedAt? = none) :
    Stores P N (emit i) := by
  intro e he
  exact keeps_write he rfl (he.numbered.plain hs hf)

theorem stores_emitChecked {r : Except Error Instruction}
    (h : ∀ i, r = .ok i → i.storedAt? = none ∧ i.fetchedAt? = none) :
    Stores P N (emitChecked r) := by
  intro e he
  constructor
  unfold emitChecked
  rw [Effect.ensures_bind]
  cases hr : r with
  | error error => exact (Effect.ensures_ofExcept_error error).2 trivial
  | ok i =>
    obtain ⟨hs, hf⟩ := h i hr
    rw [Effect.ensures_ofExcept_ok]
    exact (stores_emit hs hf e he).ensures

theorem memoInstruction_eq_ok {short : UInt8 → Instruction} {long : UInt32 → Instruction} {n : Nat}
    {i : Instruction} (h : memoInstruction short long n = .ok i) :
    (∃ k : UInt8, i = short k ∧ k.toNat = n) ∨ ∃ k : UInt32, i = long k ∧ k.toNat = n := by
  unfold memoInstruction at h
  split at h
  · omega
  · split at h
    · cases h
      refine .inl ⟨_, rfl, ?_⟩
      rw [UInt8.toNat_ofNat']
      omega
    · split at h
      · cases h
        refine .inr ⟨_, rfl, ?_⟩
        rw [UInt32.toNat_ofNat']
        omega
      · cases h

theorem putInstruction_eq_ok {n : Nat} {i : Instruction} (h : putInstruction n = .ok i) :
    i.storedAt? = some n ∧ i.fetchedAt? = none := by
  obtain ⟨k, rfl, rfl⟩ | ⟨k, rfl, rfl⟩ := memoInstruction_eq_ok h <;> exact ⟨rfl, rfl⟩

theorem getInstruction_eq_ok {n : Nat} {i : Instruction} (h : getInstruction n = .ok i) :
    i.storedAt? = none ∧ i.fetchedAt? = some n := by
  obtain ⟨k, rfl, rfl⟩ | ⟨k, rfl, rfl⟩ := memoInstruction_eq_ok h <;> exact ⟨rfl, rfl⟩

theorem keeps_fetch {n : Nat} (he : Orderly P e) (ho : e.memo.get? o = some n) :
    Keeps P N e (emitFor o (getInstruction n)) := by
  constructor
  unfold emitFor
  rw [Effect.ensures_bind]
  cases h : getInstruction n with
  | error error => exact (Effect.ensures_ofExcept_error error).2 trivial
  | ok i =>
    obtain ⟨hs, hf⟩ := getInstruction_eq_ok h
    rw [Effect.ensures_ofExcept_ok]
    refine (keeps_write he ?_ ?_).ensures
    · simp [Written.stored?, hs]
    · apply he.numbered.concat
      · intro n' hn'
        rw [hs] at hn'
        cases hn'
      · intro n' hn'
        rw [hf] at hn'
        cases hn'
        exact ⟨o, rfl, he.memo ▸ ho⟩

theorem orderly_memoize {i : Instruction} (he : Orderly P e)
    (hi : i.storedAt? = some e.memo.size ∧ i.fetchedAt? = none)
    (fresh : P → o ∉ storesOf e.history) (temporary : ∀ n, o = .temporary n → n < e.temporaries) :
    let e' := { e with
      output := { instruction := i, object := some o } :: e.output
      memo := e.memo.insert o e.memo.size }
    Orderly P e' ∧ storesOf e'.history = storesOf e.history ++ [o] := by
  intro e'
  let w : Written := { instruction := i, object := some o }
  have hh : e'.history = e.history ++ [w] := by
    simp [e', w, history]
  have hw : w.stored? = some (o, (memoAfter e.history).size) := by
    rw [← he.memo]
    simp [w, Written.stored?, hi.1]
  have stores : storesOf e'.history = storesOf e.history ++ [o] := by
    rw [hh, storesOf_concat, hw]
  refine ⟨⟨?_, ?_, ?_, ?_⟩, stores⟩
  · rw [hh, memoAfter_concat, hw, ← he.memo]
  · rw [hh]
    apply he.numbered.concat
    · intro n hn
      rw [hi.1] at hn
      cases hn
      exact ⟨o, rfl, by rw [he.memo]⟩
    · intro n hn
      rw [hi.2] at hn
      cases hn
  · intro hP
    rw [stores, List.nodup_append']
    refine ⟨he.nodup hP, List.nodup_singleton o, ?_⟩
    rw [List.disjoint_singleton]
    exact fresh hP
  · intro n hn
    rw [stores, List.mem_append, List.mem_singleton] at hn
    obtain hn | hn := hn
    · exact he.temporary n hn
    · exact temporary n hn.symm

theorem keeps_memoize (he : Orderly P e) (fresh : P → o ∉ storesOf e.history)
    (temporary : ∀ n, o = .temporary n → n < e.temporaries) (node : ∀ id, o = .node id → N id) :
    Keeps P N e (memoize o) := by
  constructor
  unfold memoize emitFor
  simp only [Effect.ensures_bind, Effect.ensures_get]
  cases h : putInstruction e.memo.size with
  | error error => exact (Effect.ensures_ofExcept_error error).2 trivial
  | ok i =>
    simp only [write, Effect.ensures_ofExcept_ok, Effect.ensures_modify]
    obtain ⟨orderly, stores⟩ := orderly_memoize he (putInstruction_eq_ok h) fresh temporary
    refine ⟨orderly, ?_⟩
    intro id hid
    rw [stores, List.mem_append, List.mem_singleton] at hid
    obtain hid | hid := hid
    · exact .inl hid
    · exact .inr (node id hid.symm)

theorem keeps_fresh {f : Identity → Encoding Unit} (he : Orderly P e)
    (h : ∀ e' n, Orderly P e' → n < e'.temporaries → .temporary n ∉ storesOf e'.history →
      Keeps P N e' (f (.temporary n))) :
    Keeps P N e (fresh >>= f) := by
  let e' := { e with temporaries := e.temporaries + 1 }
  have he' : Orderly P e' := by
    refine ⟨he.memo, he.numbered, he.nodup, ?_⟩
    intro n hn
    exact Nat.lt_succ_of_lt (he.temporary n hn)
  have absent : .temporary e.temporaries ∉ storesOf e'.history := by
    intro hn
    exact lt_irrefl _ (he.temporary _ hn)
  constructor
  unfold fresh
  simp only [Effect.ensures_bind, Effect.ensures_get, Effect.ensures_modify, Effect.ensures_pure]
  exact (h e' e.temporaries he' (Nat.lt_succ_self _) absent).ensures

theorem stores_memoizeFresh : Stores P N memoizeFresh := by
  intro e he
  apply keeps_fresh he
  intro e' n he' hn absent
  apply keeps_memoize he' (fun _ => absent)
  · rintro _ ⟨⟩
    exact hn
  · rintro _ ⟨⟩

theorem keeps_once {x : Encoding Unit} (he : Orderly P e)
    (h : o ∉ storesOf e.history → Keeps P N e x) : Keeps P N e (once o x) := by
  constructor
  unfold once
  simp only [Effect.ensures_bind, Effect.ensures_get]
  cases ho : e.memo.get? o with
  | some n => exact (keeps_fetch he ho).ensures
  | none => exact (h (he.not_mem ho)).ensures

theorem textInstruction_eq_ok {t : Text} {i : Instruction} (h : textInstruction t = .ok i) :
    i = .unicode t := by
  unfold textInstruction at h
  split at h <;> cases h
  rfl

theorem keeps_new {r : Except Error Instruction} (he : Orderly P e)
    (plain : ∀ i, r = .ok i → i.storedAt? = none ∧ i.fetchedAt? = none)
    (absent : o ∉ storesOf e.history) (temporary : ∀ n, o = .temporary n → n < e.temporaries)
    (node : ∀ id, o = .node id → N id) :
    Keeps P N e (emitChecked r >>= fun _ => memoize o) := by
  constructor
  unfold emitChecked emit write
  cases hr : r with
  | error error =>
    simp only [Effect.ensures_bind, Effect.ensures_ofExcept_error]
  | ok i =>
    obtain ⟨hs, hf⟩ := plain i hr
    obtain ⟨he', stores⟩ := orderly_write (w := { instruction := i }) he rfl (he.numbered.plain hs hf)
    simp only [Effect.ensures_bind, Effect.ensures_ofExcept_ok, Effect.ensures_modify]
    have stored := keeps_memoize (N := N) he' (fun _ => stores ▸ absent) temporary node
    refine stored.ensures.post ?_
    rintro _ e' ⟨ho, hw⟩
    refine ⟨ho, fun id hid => ?_⟩
    rw [← stores]
    exact hw id hid

theorem keeps_saveText {t : Text} (he : Orderly P e)
    (temporary : ∀ n, o = .temporary n → n < e.temporaries) (node : ∀ id, o = .node id → N id) :
    Keeps P N e (saveText o t) := by
  apply keeps_once he
  intro absent
  apply keeps_new he _ absent temporary node
  intro i hi
  obtain rfl := textInstruction_eq_ok hi
  exact ⟨rfl, rfl⟩

theorem stores_saveGlobal (module name : Text) : Stores P N (saveGlobal module name) := by
  intro e he
  apply keeps_once he
  intro absent
  apply keeps_new (r := .ok (.global module name)) he _ absent
  · rintro _ ⟨⟩
  · rintro _ ⟨⟩
  · rintro _ ⟨⟩
    exact ⟨rfl, rfl⟩

theorem intInstruction_eq_ok {n : Int} {i : Instruction} (h : intInstruction n = .ok i) :
    (∃ k, i = .int1 k) ∨ (∃ k, i = .int2 k) ∨ (∃ k, i = .int4 k) ∨ ∃ k, i = .long k := by
  unfold intInstruction at h
  split at h
  · exact .inl ⟨_, (Except.ok.inj h).symm⟩
  split at h
  · exact .inr (.inl ⟨_, (Except.ok.inj h).symm⟩)
  split at h
  · exact .inr (.inr (.inl ⟨_, (Except.ok.inj h).symm⟩))
  dsimp only at h
  split at h
  · cases h
  · exact .inr (.inr (.inr ⟨_, (Except.ok.inj h).symm⟩))

theorem plain_intInstruction {n : Int} {i : Instruction} (h : intInstruction n = .ok i) :
    i.storedAt? = none ∧ i.fetchedAt? = none := by
  obtain ⟨_, rfl⟩ | ⟨_, rfl⟩ | ⟨_, rfl⟩ | ⟨_, rfl⟩ := intInstruction_eq_ok h <;> exact ⟨rfl, rfl⟩

theorem stores_saveInt (n : Int) : Stores P N (saveInt n) :=
  stores_emitChecked fun _ => plain_intInstruction

theorem plain_tupleInstruction (n : Nat) :
    (tupleInstruction n).storedAt? = none ∧ (tupleInstruction n).fetchedAt? = none := by
  unfold tupleInstruction
  split <;> exact ⟨rfl, rfl⟩

/-- A tuple is stored after its items have been written. -/
theorem keeps_saveTuple {identity : Encoding Identity} {items : List (Encoding Unit)}
    (he : Orderly P e) (hi : ∀ item ∈ items, Stores P N' item) (hN : ∀ id, N' id → N id)
    (store : ∀ e', Orderly P e' → StoresWithin N' e e' → Keeps P N e' (identity >>= memoize)) :
    Keeps P N e (saveTuple identity items) := by
  have plain := plain_tupleInstruction items.length
  have close (e' : Encoder) (he' : Orderly P e') (hw : StoresWithin N' e e') :
      Keeps P N e' (items.forM id >>= fun _ => emit (tupleInstruction items.length) >>= fun _ =>
        identity >>= memoize) := by
    apply (stores_forM hi e' he').before hN
    intro _ e₁ he₁ hw₁
    apply (stores_emit (N := N') plain.1 plain.2 e₁ he₁).before hN
    intro _ e₂ he₂ hw₂
    exact store e₂ he₂ ((hw.trans hw₁).trans hw₂)
  unfold saveTuple
  split
  · exact stores_emit rfl rfl e he
  · dsimp only
    split
    · apply (stores_emit (N := N') rfl rfl e he).before hN
      intro _ e' he' hw
      exact close e' he' hw
    · exact close e he (.refl e)

theorem stores_saveFresh {items : List (Encoding Unit)} (hi : ∀ item ∈ items, Stores P N item) :
    Stores P N (saveTuple fresh items) := by
  intro e he
  apply keeps_saveTuple he hi (fun _ h => h)
  intro e' he' _
  exact stores_memoizeFresh e' he'

theorem stores_saveBatch {single several : Instruction} {batch : List (Encoding Unit)}
    (hsingle : single.storedAt? = none ∧ single.fetchedAt? = none)
    (hseveral : several.storedAt? = none ∧ several.fetchedAt? = none)
    (hi : ∀ item ∈ batch, Stores P N item) : Stores P N (saveBatch single several batch) := by
  unfold saveBatch
  split
  · next item =>
    apply (hi item List.mem_cons_self).bind
    intro _
    exact stores_emit hsingle.1 hsingle.2
  · apply (stores_emit rfl rfl).bind
    intro _
    apply (stores_forM hi).bind
    intro _
    exact stores_emit hseveral.1 hseveral.2

theorem stores_saveItems {config : Config} {single several : Instruction}
    {items : List (Encoding Unit)}
    (hsingle : single.storedAt? = none ∧ single.fetchedAt? = none)
    (hseveral : several.storedAt? = none ∧ several.fetchedAt? = none)
    (hi : ∀ item ∈ items, Stores P N item) :
    Stores P N (saveItems config single several items) := by
  have batches : Stores P N ((batches config.batchSize items).forM (saveBatch single several)) := by
    apply stores_forM
    intro batch hb
    apply stores_saveBatch hsingle hseveral
    intro item hit
    exact hi item (mem_of_mem_batches hb hit)
  unfold saveItems
  split
  · exact (stores_throw _).bind fun _ => batches
  · exact batches

theorem stores_orderedDict : Stores P N orderedDict := by
  apply (stores_saveGlobal _ _).bind
  intro _
  apply (stores_emit rfl rfl).bind
  intro _
  exact stores_emit rfl rfl

theorem stores_useStorage (memory : Memory) (t : Tensor) : Stores P N (useStorage memory t) := by
  intro e he
  constructor
  unfold useStorage
  simp only [Effect.ensures_bind, Effect.ensures_get]
  split
  · split
    · simp only [Effect.ensures_bind, Effect.ensures_throw]
    · simp only [Effect.ensures_pure]
      exact ⟨he, .refl e⟩
  · simp only [Effect.ensures_bind, Effect.ensures_set, Effect.ensures_pure]
    exact ⟨⟨he.memo, he.numbered, he.nodup, he.temporary⟩, .refl e⟩

theorem stores_saveWord {t : Text} (temporary : ∀ n, o ≠ .temporary n) (node : ∀ id, o ≠ .node id) :
    Stores P N (saveText o t) := by
  intro e he
  apply keeps_saveText he
  · intro n hn
    exact absurd hn (temporary n)
  · intro id hid
    exact absurd hid (node id)

theorem stores_saveStorage (memory : Memory) (t : Tensor) (storageClass : Text) :
    Stores P N (saveStorage memory t storageClass) := by
  apply (stores_useStorage memory t).bind
  intro n
  refine Stores.bind (stores_saveFresh ?_) fun _ => stores_emit rfl rfl
  simp only [List.forall_mem_cons, List.not_mem_nil, false_imp_iff, implies_true, and_true]
  exact ⟨stores_saveWord nofun nofun, stores_saveGlobal _ _, stores_saveWord nofun nofun,
    stores_saveWord nofun nofun, stores_saveInt _⟩

theorem stores_saveSizes (sizes : List Nat) : Stores P N (saveSizes sizes) := by
  apply stores_saveFresh
  simp only [List.forall_mem_map]
  intro n _
  exact stores_saveInt n

theorem stores_tensorArguments (memory : Memory) (t : Tensor) (storageClass : Text) :
    ∀ item ∈ tensorArguments memory t storageClass, Stores P N item := by
  have hooks : Stores P N (orderedDict >>= fun _ => memoizeFresh) :=
    stores_orderedDict.bind fun _ => stores_memoizeFresh
  simp only [tensorArguments, List.forall_mem_cons, List.not_mem_nil, false_imp_iff, implies_true,
    and_true]
  exact ⟨stores_saveStorage _ _ _, stores_saveInt _, stores_saveSizes _, stores_saveSizes _,
    stores_emit rfl rfl, hooks⟩

theorem keeps_saveTensor {memory : Memory} {t : Tensor} {id : Nat} (he : Orderly P e)
    (absent : .node id ∉ storesOf e.history) (hN : N id) :
    Keeps P N e (saveTensor memory (.node id) t) := by
  unfold saveTensor
  split
  · exact stores_throw _ e he
  · next storageClass _ =>
    have none (id : Nat) : False → N id := False.elim
    apply (stores_saveGlobal _ _ e he).before none
    intro _ e₁ he₁ hw₁
    apply (stores_saveFresh (stores_tensorArguments memory t storageClass) e₁ he₁).before none
    intro _ e₂ he₂ hw₂
    apply (stores_emit rfl rfl e₂ he₂).before none
    intro _ e₃ he₃ hw₃
    apply keeps_memoize he₃
    · intro _ hid
      exact ((hw₁.trans hw₂).trans hw₃ id hid).elim absent False.elim
    · rintro _ ⟨⟩
    · rintro _ ⟨⟩
      exact hN

/-- A container is stored before it is filled. -/
theorem keeps_container {start fill : Encoding Unit} {id : Nat} (he : Orderly P e)
    (absent : .node id ∉ storesOf e.history) (hs : Stores P (fun _ => False) start) (hN : N id)
    (hf : Stores P N fill) :
    Keeps P N e (start >>= fun _ => memoize (.node id) >>= fun _ => fill) := by
  apply (hs e he).before fun _ => False.elim
  intro _ e₁ he₁ hw
  have stored : Keeps P N e₁ (memoize (.node id)) := by
    apply keeps_memoize he₁
    · intro _ hid
      exact (hw id hid).elim absent False.elim
    · rintro _ ⟨⟩
    · rintro _ ⟨⟩
      exact hN
  exact stored.bind fun _ => hf

end Actions

section Objects

variable {P : Prop} {N : Nat → Prop} {config : Config} {g : Graph} {fuel top : Nat}

theorem stores_items {items : List Nat} (h : ∀ item ∈ items, Stores P N (save config g fuel item)) :
    Stores P N (saveItems config .append .appends (items.map (save config g fuel))) := by
  apply stores_saveItems ⟨rfl, rfl⟩ ⟨rfl, rfl⟩
  rwa [List.forall_mem_map]

theorem stores_entries {entries : List (Nat × Nat)}
    (h : ∀ e ∈ entries, Stores P N (save config g fuel e.1) ∧ Stores P N (save config g fuel e.2)) :
    Stores P N (saveItems config .setItem .setItems (entries.map (saveEntry config g fuel))) := by
  apply stores_saveItems ⟨rfl, rfl⟩ ⟨rfl, rfl⟩
  rw [List.forall_mem_map]
  exact fun e he => (h e he).1.bind fun _ => (h e he).2

theorem stores_attribute {value : Nat} {name : Text} (hv : Stores P N (save config g fuel value)) :
    Stores P N (fresh >>= fun o => saveText (Identity.ofText name o) name >>= fun _ =>
      save config g fuel value) := by
  intro e he
  apply keeps_fresh he
  intro e' n he' hn _
  refine Keeps.bind ?_ fun _ => hv
  apply keeps_saveText he'
  · unfold Identity.ofText
    split
    · rintro _ ⟨⟩
    · rintro _ ⟨⟩
      exact hn
  · unfold Identity.ofText
    split <;> rintro _ ⟨⟩

theorem stores_saveAttributes {attributes : List (Text × Nat)}
    (h : ∀ a ∈ attributes, Stores P N (save config g fuel a.2)) :
    Stores P N (saveAttributes config g fuel attributes) := by
  unfold saveAttributes
  split
  · exact stores_pure ()
  · apply (stores_emit rfl rfl).bind
    intro _
    apply stores_memoizeFresh.bind
    intro _
    refine Stores.bind (stores_saveItems ⟨rfl, rfl⟩ ⟨rfl, rfl⟩ ?_) fun _ => stores_emit rfl rfl
    rw [List.forall_mem_map]
    exact fun a ha => stores_attribute (h a ha)

/-- Writing an object keeps the memo orderly; once only, where no tuple reaches itself. -/
theorem stores_save (grounded : P → g.TuplesGrounded top) {id : Nat} (hid : g.Reaches top id)
    (fuel : Nat) : Stores P (g.Reaches id) (save config g fuel id) := by
  induction fuel generalizing id with
  | zero => exact stores_throw _
  | succ fuel ih =>
    have child {item : Nat} (h : g.Holds id item) :
        Stores P (fun n => Relation.TransGen g.Holds id n) (save config g fuel item) :=
      (ih (hid.tail h)).mono fun n hn => .head' h hn
    have below {item : Nat} (h : g.Holds id item) :
        Stores P (g.Reaches id) (save config g fuel item) :=
      (child h).mono fun n hn => hn.to_reflTransGen
    intro e he
    cases hg : g.node id with
    | none | bool | float =>
      rw [save_node hg nofun nofun]
      exact keeps_once he fun _ => stores_emit rfl rfl e he
    | int n =>
      rw [save_node hg nofun nofun]
      exact keeps_once he fun _ => stores_saveInt n e he
    | text t =>
      rw [save_text hg]
      apply keeps_once he
      intro _
      apply keeps_saveText he
      · intro n hn
        exact (Graph.identity_ne_temporary hn).elim
      · intro n hn
        rw [Graph.identity_eq_node hn]
        exact .refl
    | tuple items =>
      rw [save_tuple hg]
      apply keeps_once he
      intro absent
      have each : ∀ item ∈ items.map (save config g fuel),
          Stores P (fun n => Relation.TransGen g.Holds id n) item :=
        List.forall_mem_map.2 fun item hi => child (Graph.holds_of_tuple hg item hi)
      apply keeps_saveTuple he each (fun n hn => hn.to_reflTransGen)
      intro e' he' hw
      rw [pure_bind]
      apply keeps_memoize he'
      · intro hP hmem
        exact (hw id hmem).elim absent (grounded hP id items hid hg)
      · rintro _ ⟨⟩
      · rintro _ ⟨⟩
        exact .refl
    | list items =>
      rw [save_list hg]
      exact keeps_once he fun absent => keeps_container he absent (stores_emit rfl rfl) .refl
        (stores_items fun item hi => below (Graph.holds_of_list hg item hi))
    | dict entries =>
      rw [save_dict hg]
      exact keeps_once he fun absent => keeps_container he absent (stores_emit rfl rfl) .refl
        (stores_entries fun e he => (Graph.holds_of_dict hg e he).imp below below)
    | ordered entries attributes =>
      rw [save_ordered hg]
      have filled : Stores P (g.Reaches id) (saveItems config .setItem .setItems
          (entries.map (saveEntry config g fuel))) :=
        stores_entries fun e he => (Graph.holds_of_ordered hg e he).imp below below
      exact keeps_once he fun absent => keeps_container he absent stores_orderedDict .refl
        (filled.bind fun _ =>
          stores_saveAttributes fun a ha => below (Graph.holds_of_attribute hg a ha))
    | tensor t =>
      rw [save_tensor hg]
      exact keeps_once he fun absent => keeps_saveTensor he absent .refl
    | storageClass name =>
      cases classed : DType.ofStorageClass? name with
      | some d =>
        rw [save_storageClass hg classed]
        exact keeps_once he fun _ => stores_saveGlobal _ _ e he
      | none =>
        rw [save_otherClass hg classed]
        exact keeps_once he fun _ => stores_throw _ e he
    | mapping | bytes | emptySet =>
      rw [save_node hg nofun nofun]
      exact keeps_once he fun _ => stores_throw _ e he

theorem stores_stream (grounded : P → g.TuplesGrounded top) :
    Stores P (g.Reaches top) (g.stream config top) := by
  apply (stores_emit rfl rfl).bind
  intro _
  apply (stores_save grounded .refl _).bind
  intro _
  exact stores_emit rfl rfl

end Objects

end Encoder

namespace Graph

open Encoder

variable {config : Config} {g : Graph} {id : Nat} {d : Dump}

theorem dump_eq_ok : g.dump config id = .ok d ↔ ∃ top g' e, g.asOrdered id = .ok (top, g') ∧
    (g'.stream config top).perform {} = (.ok (), e) ∧
    d = { written := e.history, memoSize := e.memo.size, storages := e.storages } := by
  unfold dump
  cases g.asOrdered id with
  | error error => simp [bind, Except.bind]
  | ok mapping =>
    obtain ⟨top, g'⟩ := mapping
    cases hw : (g'.stream config top).perform {} with
    | mk result e => cases result <;> simp [bind, Except.bind, Except.map, hw, history, eq_comm]

/-- The memo of a dumped graph: its numbers count the entries; it is sound when and only when
nothing is stored after a repetition, and so where no tuple reaches itself. -/
theorem dump_memo (h : g.dump config id = .ok d) :
    Numbered d.written ∧ d.memoSize = (memoAfter d.written).size ∧
    (MemoSound d.written ↔ RepeatsAlone (storesOf d.written)) ∧
    (∀ top g', g.asOrdered id = .ok (top, g') → g'.TuplesGrounded top → MemoSound d.written) := by
  obtain ⟨top, g', e, ha, hw, rfl⟩ := dump_eq_ok.1 h
  have orderly {P : Prop} (grounded : P → g'.TuplesGrounded top) : Orderly P e :=
    ((stores_stream grounded _ orderly_start).ensures.of_ok hw).1
  have plain : Orderly False e := orderly False.elim
  refine ⟨plain.numbered, congrArg Table.size plain.memo, memoSound_iff plain.numbered, ?_⟩
  intro top₁ g₁ ha₁ grounded
  cases ha.symm.trans ha₁
  rw [memoSound_iff plain.numbered]
  exact repeatsAlone_of_nodup ((orderly fun _ => grounded).nodup grounded)

/-- A tuple under two names, whose one item is a list that holds itself. -/
def sharedTuple : Graph :=
  { nodes := #[.ordered [(1, 2), (3, 2)] [], .text "first", .tuple [4], .text "second", .list [4]] }

theorem sharedTuple_grounded : sharedTuple.TuplesGrounded 0 := by
  have below {id : Nat} (h : Relation.TransGen sharedTuple.Holds 4 id) : id = 4 := by
    induction h with
    | single h => exact List.mem_singleton.1 h
    | tail _ h ih =>
      subst ih
      exact List.mem_singleton.1 h
  intro id items _ hid h
  obtain rfl : id = 2 := by
    match id, hid with
    | 2, _ => rfl
    | n + 5, hid => simp [node, sharedTuple] at hid
  obtain ⟨item, hitem, hrest⟩ := Relation.TransGen.head'_iff.1 h
  obtain rfl := List.mem_singleton.1 hitem
  obtain hrest | hrest := Relation.reflTransGen_iff_eq_or_transGen.1 hrest
  · cases hrest
  · cases below hrest

theorem dump_memo_sharedTuple :
    ∃ d, sharedTuple.dump {} 0 = .ok d ∧ MemoSound d.written := by
  have written : (sharedTuple.dump {} 0).toOption.map (fun _ => ()) = some () := by
    decide +kernel
  obtain ⟨d, hd, -⟩ := exists_ok_of_map written
  exact ⟨d, hd, (dump_memo hd).2.2.2 0 _ rfl sharedTuple_grounded⟩

/-- A tuple under two names, whose one item is a list that holds the tuple. -/
def recursiveTuple : Graph :=
  { nodes := #[.ordered [(1, 2), (4, 5), (6, 2)] [], .text "x", .tuple [3], .list [2], .text "y",
      .none, .text "z"] }

/-- The key after such a tuple gets the number that the tuple has. -/
theorem recursiveTuple_memo :
    ∃ d, recursiveTuple.dump {} 0 = .ok d ∧ ¬ MemoSound d.written := by
  have numbers : (recursiveTuple.dump {} 0).toOption.map (fun d =>
      ((memoAfter d.written).get? (.node 2), (memoAfter d.written).get? (.short "y"))) =
      some (some 5, some 5) := by
    decide +kernel
  obtain ⟨d, hd, both⟩ := exists_ok_of_map numbers
  obtain ⟨tuple, key⟩ := Prod.mk.inj both
  refine ⟨d, hd, fun sound => ?_⟩
  cases sound.distinct _ (List.prefix_refl d.written) _ _ 5 tuple key

end Graph

end Checkpoint.Pickle
