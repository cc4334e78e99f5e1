import Checkpoint.Proofs.Bytes
import Checkpoint.Proofs.Text
import Checkpoint.Proofs.Pickle.Image
import Checkpoint.Proofs.Pickle.MemoSoundness
import Checkpoint.Tensor.Limits
import Mathlib.Data.List.Perm.Subperm

/-! Graphs that can be written.  Without cycles the writer never runs out of nesting, and it stops only
where there are more objects or storages than numbers for them. -/

namespace Checkpoint.Pickle

open Effect

namespace Encoder

/-- The first number that does not fit a field of four bytes. -/
def wordLimit : Nat := 0x100000000

/-- Whether there are numbers left for objects and storages. -/
def Roomy (e : Encoder) : Prop := e.memo.size < wordLimit ∧ e.storages.length < wordLimit

/-- A state whose storages are as they should be and whose objects have numbers in turn. -/
structure Settled (P : List StorageUse → Prop) (e : Encoder) : Prop where
  storages : P e.storages
  numbers : ∀ o n, e.memo.get? o = some n → n ≤ e.memo.size

/-- An action that keeps what holds of the storages and stops only for want of numbers. -/
def Accepts (P : List StorageUse → Prop) (x : Encoding Unit) : Prop :=
  ∀ e, Settled P e → x.Ensures e (fun _ e' => Settled P e')
    fun error e' => error = .fieldOverflow ∧ ¬ e'.Roomy

section Laws

variable {P : List StorageUse → Prop} {x y : Encoding Unit}

theorem accepts_pure : Accepts P (pure ()) := fun _ he => (ensures_pure _).2 he

theorem Accepts.andThen (hx : Accepts P x) (hy : Accepts P y) : Accepts P (x >>= fun _ => y) := by
  intro e he
  rw [ensures_bind]
  exact (hx e he).post fun _ e' he' => hy e' he'

theorem accepts_forM {α : Type} {items : List α} {f : α → Encoding Unit}
    (h : ∀ item ∈ items, Accepts P (f item)) : Accepts P (items.forM f) := by
  induction items with
  | nil => exact accepts_pure
  | cons item items ih =>
    obtain ⟨hi, hs⟩ := List.forall_mem_cons.1 h
    exact hi.andThen (ih hs)

theorem Settled.write {e : Encoder} (he : Settled P e) (w : Written) :
    Settled P { e with output := w :: e.output } := ⟨he.storages, he.numbers⟩

theorem accepts_write (w : Written) : Accepts P (write w) :=
  fun _ he => (ensures_modify _).2 (he.write w)

theorem accepts_emit (i : Instruction) : Accepts P (emit i) := accepts_write _

theorem accepts_emitChecked {i : Instruction} : Accepts P (emitChecked (.ok i)) := by
  intro e he
  unfold emitChecked
  rw [ensures_bind, ensures_ofExcept_ok]
  exact accepts_emit _ e he

/-- What the memo has no instruction for is a number past its field. -/
theorem memoInstruction_error {short : UInt8 → Instruction} {long : UInt32 → Instruction} {n : Nat}
    {error : Error} (h : memoInstruction short long n = .error error) :
    error = .fieldOverflow ∧ wordLimit ≤ n := by
  unfold memoInstruction at h
  rw [if_neg (by omega)] at h
  split at h
  · cases h
  · split at h
    · cases h
    · cases h
      refine ⟨rfl, ?_⟩
      unfold wordLimit
      omega

theorem ensures_emitFor {e : Encoder} {o : Identity} {n : Nat}
    {short : UInt8 → Instruction} {long : UInt32 → Instruction} (hn : n ≤ e.memo.size)
    {Q : Unit → Encoder → Prop} (hq : ∀ w : Written, Q () { e with output := w :: e.output }) :
    (emitFor o (memoInstruction short long n)).Ensures e Q
      fun error e' => error = .fieldOverflow ∧ ¬ e'.Roomy := by
  unfold emitFor
  rw [ensures_bind]
  apply ensures_ofExcept
  · intro i _
    exact (ensures_modify _).2 (hq _)
  · intro error failed
    obtain ⟨rfl, past⟩ := memoInstruction_error failed
    exact ⟨rfl, fun roomy => absurd roomy.1 (by omega)⟩

theorem accepts_memoize (o : Identity) : Accepts P (memoize o) := by
  intro e he
  unfold memoize
  rw [ensures_bind, ensures_get, ensures_bind]
  apply ensures_emitFor (Nat.le_refl _)
  intro w
  rw [ensures_modify]
  have grown : e.memo.size ≤ (e.memo.insert o e.memo.size).size := by
    rw [Table.size_insert]
    split <;> omega
  refine ⟨he.storages, fun o' n hn => ?_⟩
  change (e.memo.insert o e.memo.size).get? o' = some n at hn
  by_cases same : o = o'
  · rw [same, Table.get?_insert_self] at hn
    obtain rfl := Option.some.inj hn
    exact same ▸ grown
  · rw [Table.get?_insert_of_ne same] at hn
    exact Nat.le_trans (he.numbers o' n hn) grown

theorem accepts_memoizeFresh : Accepts P memoizeFresh := by
  intro e he
  unfold memoizeFresh fresh
  simp only [ensures_bind, ensures_get, ensures_modify, ensures_pure]
  exact accepts_memoize _ _ ⟨he.storages, he.numbers⟩

theorem accepts_once {o : Identity} (h : Accepts P x) : Accepts P (once o x) := by
  intro e he
  unfold once
  rw [ensures_bind, ensures_get]
  split
  · next n hn => exact ensures_emitFor (he.numbers o n hn) he.write
  · exact h e he

/-- A text is written that is short, or that there are too many storages for. -/
theorem accepts_saveText (o : Identity) {t : Text}
    (h : t.utf8.length < wordLimit ∨ ∀ uses, P uses → wordLimit ≤ uses.length) :
    Accepts P (saveText o t) := by
  apply accepts_once
  refine Accepts.andThen (fun e he => ?_) (accepts_memoize o)
  unfold textInstruction
  split
  · exact accepts_emitChecked e he
  · next long =>
    obtain short | many := h
    · exact absurd short long
    · unfold emitChecked
      rw [ensures_bind, ensures_ofExcept_error]
      exact ⟨rfl, fun roomy => Nat.not_lt.2 (many _ he.storages) roomy.2⟩

theorem accepts_saveGlobal (module name : Text) : Accepts P (saveGlobal module name) :=
  accepts_once ((accepts_emit _).andThen (accepts_memoize _))

theorem exists_intInstruction {n : Int} (h : Bytes.signedWidth n ≤ 255) :
    ∃ i, intInstruction n = .ok i := by
  unfold intInstruction
  split
  · exact ⟨_, rfl⟩
  split
  · exact ⟨_, rfl⟩
  split
  · exact ⟨_, rfl⟩
  exact ⟨_, if_neg (by omega)⟩

theorem signedWidth_le_of_machine {n : Nat} (h : n < machineLimit) : Bytes.signedWidth n ≤ 255 := by
  have range : n < 2 ^ 63 := h
  have width := Bytes.signedWidth_le (n := n) (k := 63) (by omega) (by omega)
  omega

theorem accepts_saveInt {n : Int} (h : Bytes.signedWidth n ≤ 255) : Accepts P (saveInt n) := by
  obtain ⟨i, hi⟩ := exists_intInstruction h
  unfold saveInt
  rw [hi]
  exact accepts_emitChecked

theorem accepts_saveTuple {identity : Encoding Identity} {items : List (Encoding Unit)}
    (hi : Accepts P (identity >>= memoize)) (h : ∀ item ∈ items, Accepts P item) :
    Accepts P (saveTuple identity items) := by
  have all : Accepts P (items.forM id) := accepts_forM h
  unfold saveTuple
  split
  · exact accepts_emit _
  · dsimp only
    split
    · exact (accepts_emit _).andThen (all.andThen ((accepts_emit _).andThen hi))
    · exact all.andThen ((accepts_emit _).andThen hi)

theorem accepts_saveBatch {single several : Instruction} {batch : List (Encoding Unit)}
    (h : ∀ item ∈ batch, Accepts P item) : Accepts P (saveBatch single several batch) := by
  unfold saveBatch
  split
  · exact (h _ (List.mem_singleton_self _)).andThen (accepts_emit _)
  · exact (accepts_emit _).andThen ((accepts_forM h).andThen (accepts_emit _))

theorem accepts_saveItems {config : Config} {single several : Instruction}
    {items : List (Encoding Unit)} (hc : config.batchSize ≤ batchLimit)
    (h : ∀ item ∈ items, Accepts P item) :
    Accepts P (saveItems config single several items) := by
  unfold saveItems
  rw [if_neg (by omega)]
  refine accepts_pure.andThen (accepts_forM fun batch hb => ?_)
  exact accepts_saveBatch fun item hi => h item (mem_of_mem_batches hb hi)

theorem accepts_orderedDict : Accepts P orderedDict :=
  (accepts_saveGlobal _ _).andThen ((accepts_emit _).andThen (accepts_emit _))

/-- Whether a tensor can be written: its type is that of all tensors over its storage and has a
storage class, and its numbers can be. -/
structure CanWrite (memory : Memory) (tensors : Tensor → Prop) (t : Tensor) : Prop where
  occurs : tensors t
  alike : ∀ t', tensors t' → t'.storage = t.storage → t'.dtype = t.dtype
  classed : ∃ name, t.dtype.storageClass? = some name
  length : (memory.buffer t.storage).length < machineLimit
  offset : t.offset < machineLimit
  shape : ∀ n ∈ t.shape, n < machineLimit
  stride : ∀ n ∈ t.stride, n < machineLimit

theorem accepts_saveNat {n : Nat} (h : n < machineLimit) : Accepts P (saveInt n) :=
  accepts_saveInt (signedWidth_le_of_machine h)

theorem accepts_fresh : Accepts P (fresh >>= memoize) := accepts_memoizeFresh

theorem accepts_saveSizes {sizes : List Nat} (h : ∀ n ∈ sizes, n < machineLimit) :
    Accepts P (saveSizes sizes) := by
  apply accepts_saveTuple accepts_fresh
  rw [List.forall_mem_map]
  exact fun n hn => accepts_saveNat (h n hn)

variable {memory : Memory} {tensors : Tensor → Prop} {t : Tensor}

theorem ensures_useStorage {e : Encoder} (he : Settled (Entered tensors) e)
    (h : CanWrite memory tensors t) : (useStorage memory t).Ensures e
      (fun n e' => Settled (Entered tensors) e' ∧ n < e'.storages.length) fun _ _ => False := by
  unfold useStorage
  rw [ensures_bind, ensures_get]
  split
  · next n hn =>
    obtain ⟨used, same, _⟩ := List.findIdx?_eq_some_iff_getElem.1 hn
    have first : (e.storages[n]?.map StorageUse.dtype).getD t.dtype = t.dtype := by
      obtain ⟨t', ht', here, typed⟩ := he.storages.used _ (List.getElem_mem used)
      rw [List.getElem?_eq_getElem used, Option.map_some, Option.getD_some, typed]
      exact h.alike t' ht' (here.symm.trans (eq_of_beq same))
    simp only [first, ne_eq, not_true, false_and, if_false, ensures_pure]
    exact ⟨he, used⟩
  · simp only [ensures_bind, ensures_set, ensures_pure]
    refine ⟨⟨he.storages.concat h.occurs, he.numbers⟩, ?_⟩
    rw [List.length_append, List.length_singleton]
    exact Nat.lt_succ_self _

theorem length_utf8_ofNat_lt {n : Nat} (h : n < wordLimit) : (Text.ofNat n).utf8.length < wordLimit := by
  have digits : n < 10 ^ 10 := Nat.lt_trans h (by decide)
  exact Nat.lt_of_le_of_lt (Text.length_utf8_ofNat (by decide) digits) (by decide)

theorem accepts_saveStorage (h : CanWrite memory tensors t) (storageClass : Text) :
    Accepts (Entered tensors) (saveStorage memory t storageClass) := by
  intro e he
  unfold saveStorage
  rw [ensures_bind]
  apply (ensures_useStorage he h).mono _ fun _ _ => False.elim
  rintro n e' ⟨he', used⟩
  have count : (memory.buffer t.storage).length / t.dtype.size < machineLimit :=
    Nat.lt_of_le_of_lt (Nat.div_le_self _ _) h.length
  -- What follows leaves the storages as they are.
  have written : Accepts (· = e'.storages) (saveTuple fresh [saveText .storageWord storageWord,
      saveGlobal storageModule storageClass, saveText (.storageKey n) (Text.ofNat n),
      saveText .locationWord locationWord,
      saveInt ((memory.buffer t.storage).length / t.dtype.size : Nat)] >>= fun _ =>
        emit .persistentId) := by
    refine Accepts.andThen ?_ (accepts_emit _)
    apply accepts_saveTuple accepts_fresh
    simp only [List.forall_mem_cons]
    refine ⟨accepts_saveText _ (.inl (by decide)), accepts_saveGlobal _ _, accepts_saveText _ ?_,
      accepts_saveText _ (.inl (by decide)), accepts_saveNat count, List.forall_mem_nil _⟩
    obtain short | long := Nat.lt_or_ge n wordLimit
    · exact .inl (length_utf8_ofNat_lt short)
    · exact .inr fun _ same => Nat.le_of_lt (Nat.lt_of_le_of_lt long (same ▸ used))
  apply (written e' ⟨rfl, he'.numbers⟩).post
  intro _ e'' he''
  exact ⟨he''.storages ▸ he'.storages, he''.numbers⟩

theorem accepts_saveTensor (o : Identity) (h : CanWrite memory tensors t) :
    Accepts (Entered tensors) (saveTensor memory o t) := by
  obtain ⟨name, hn⟩ := h.classed
  unfold saveTensor
  rw [hn]
  refine (accepts_saveGlobal _ _).andThen (.andThen ?_ ((accepts_emit _).andThen (accepts_memoize o)))
  apply accepts_saveTuple accepts_fresh
  simp only [tensorArguments, List.forall_mem_cons]
  exact ⟨accepts_saveStorage h name, accepts_saveNat h.offset, accepts_saveSizes h.shape,
    accepts_saveSizes h.stride, accepts_emit _, accepts_orderedDict.andThen accepts_memoizeFresh,
    List.forall_mem_nil _⟩

theorem accepts_saveAttribute {name : Text} (short : name.utf8.length < wordLimit)
    (h : Accepts P x) : Accepts P (do
    saveText (Identity.ofText name (← fresh)) name
    x) := by
  intro e he
  unfold fresh
  simp only [bind_assoc, pure_bind]
  rw [ensures_bind, ensures_get, ensures_bind, ensures_modify]
  exact (accepts_saveText _ (.inl short)).andThen h _ ⟨he.storages, he.numbers⟩

end Laws

section Parts

variable {P : List StorageUse → Prop} {config : Config} {g : Graph} {fuel : Nat}

theorem accepts_items (hc : config.batchSize ≤ batchLimit) {items : List Nat}
    (h : ∀ item ∈ items, Accepts P (save config g fuel item)) :
    Accepts P (saveItems config .append .appends (items.map (save config g fuel))) :=
  accepts_saveItems hc (List.forall_mem_map.2 h)

theorem accepts_entries (hc : config.batchSize ≤ batchLimit) {entries : List (Nat × Nat)}
    (h : ∀ e ∈ entries, Accepts P (save config g fuel e.1) ∧ Accepts P (save config g fuel e.2)) :
    Accepts P (saveItems config .setItem .setItems (entries.map (saveEntry config g fuel))) :=
  accepts_saveItems hc (List.forall_mem_map.2 fun e he => (h e he).1.andThen (h e he).2)

theorem accepts_saveAttributes (hc : config.batchSize ≤ batchLimit)
    {attributes : List (Text × Nat)} (short : ∀ a ∈ attributes, a.1.utf8.length < wordLimit)
    (h : ∀ a ∈ attributes, Accepts P (save config g fuel a.2)) :
    Accepts P (saveAttributes config g fuel attributes) := by
  unfold saveAttributes
  split
  · exact accepts_pure
  · refine (accepts_emit _).andThen (accepts_memoizeFresh.andThen
      ((accepts_saveItems hc ?_).andThen (accepts_emit _)))
    exact List.forall_mem_map.2 fun a ha => accepts_saveAttribute (short a ha) (h a ha)

end Parts

end Encoder

namespace Graph

/-- Whether an object can be written if those in it can. -/
def CanWrite (g : Graph) (tensors : Tensor → Prop) (id : Nat) : Prop :=
  match g.node id with
  | .int n => Bytes.signedWidth n ≤ 255
  | .text t => t.utf8.length < Encoder.wordLimit
  | .ordered _ attributes => ∀ a ∈ attributes, a.1.utf8.length < Encoder.wordLimit
  | .tensor t => Encoder.CanWrite g.memory tensors t
  | .storageClass name => ∃ d, DType.ofStorageClass? name = some d
  | .mapping .. | .bytes _ | .emptySet => False
  | _ => True

/-- No object under another holds itself, and each can be written. -/
structure Writable (g : Graph) (tensors : Tensor → Prop) (top : Nat) : Prop where
  each : ∀ id, g.Reaches top id → g.CanWrite tensors id
  acyclic : ∀ id, g.Reaches top id → ¬ Relation.TransGen g.Holds id id

theorem lt_size_of_node {g : Graph} {id : Nat} (h : g.node id ≠ .none) : id < g.nodes.size := by
  by_contra outside
  apply h
  rw [node, Array.getD_eq_getD_getElem?, Array.getElem?_eq_none (Nat.le_of_not_lt outside),
    Option.getD_none]

theorem lt_size_of_holds {g : Graph} {id item : Nat} (h : g.Holds id item) : id < g.nodes.size := by
  apply lt_size_of_node
  intro absent
  simp only [Holds, absent] at h

end Graph

section Objects

variable {g : Graph} {tensors : Tensor → Prop} {config : Config} {top : Nat}

/-- An object is accepted while there is fuel for all that are not around it. -/
theorem accepts_save (writable : g.Writable tensors top) (hc : config.batchSize ≤ Encoder.batchLimit)
    {fuel id : Nat} {around : List Nat} (hid : g.Reaches top id) (distinct : around.Nodup)
    (inside : ∀ a ∈ around, a < g.nodes.size) (above : ∀ a ∈ around, Relation.TransGen g.Holds a id)
    (enough : g.nodes.size < fuel + around.length) :
    Encoder.Accepts (Encoder.Entered tensors) (Encoder.save config g fuel id) := by
  induction fuel generalizing id around with
  | zero =>
    -- Without fuel there would be more objects around this one than there are nodes.
    have within : around ⊆ List.range g.nodes.size := fun a ha => List.mem_range.2 (inside a ha)
    have := (distinct.subperm within).length_le
    rw [List.length_range] at this
    omega
  | succ fuel ih =>
    -- The object joins those around its items; it is not among them, since it does not hold itself.
    have child {item : Nat} (h : g.Holds id item) :
        Encoder.Accepts (Encoder.Entered tensors) (Encoder.save config g fuel item) := by
      have distinct' : (id :: around).Nodup :=
        List.nodup_cons.2 ⟨fun hi => writable.acyclic id hid (above id hi), distinct⟩
      apply ih (hid.tail h) distinct'
      · exact List.forall_mem_cons.2 ⟨Graph.lt_size_of_holds h, inside⟩
      · exact List.forall_mem_cons.2 ⟨.single h, fun a ha => (above a ha).tail h⟩
      · rw [List.length_cons]
        omega
    have can := writable.each id hid
    unfold Graph.CanWrite at can
    cases hg : g.node id with
    | none | bool | float =>
      rw [Encoder.save_node hg nofun nofun]
      exact Encoder.accepts_once (Encoder.accepts_emit _)
    | int n =>
      simp only [hg] at can
      rw [Encoder.save_node hg nofun nofun]
      exact Encoder.accepts_once (Encoder.accepts_saveInt can)
    | text t =>
      simp only [hg] at can
      rw [Encoder.save_text hg]
      exact Encoder.accepts_once (Encoder.accepts_saveText _ (.inl can))
    | tuple items =>
      rw [Encoder.save_tuple hg]
      apply Encoder.accepts_once
      apply Encoder.accepts_saveTuple
      · rw [pure_bind]
        exact Encoder.accepts_memoize _
      · exact List.forall_mem_map.2 fun item hi => child (Graph.holds_of_tuple hg item hi)
    | list items =>
      rw [Encoder.save_list hg]
      have filled := Encoder.accepts_items hc fun item hi => child (Graph.holds_of_list hg item hi)
      exact Encoder.accepts_once ((Encoder.accepts_emit _).andThen
        ((Encoder.accepts_memoize _).andThen filled))
    | dict entries =>
      rw [Encoder.save_dict hg]
      have filled := Encoder.accepts_entries hc fun e he =>
        (Graph.holds_of_dict hg e he).imp child child
      exact Encoder.accepts_once ((Encoder.accepts_emit _).andThen
        ((Encoder.accepts_memoize _).andThen filled))
    | ordered entries attributes =>
      simp only [hg] at can
      rw [Encoder.save_ordered hg]
      have filled := Encoder.accepts_entries hc fun e he =>
        (Graph.holds_of_ordered hg e he).imp child child
      have attributed := Encoder.accepts_saveAttributes hc can fun a ha =>
        child (Graph.holds_of_attribute hg a ha)
      exact Encoder.accepts_once (Encoder.accepts_orderedDict.andThen
        ((Encoder.accepts_memoize _).andThen (filled.andThen attributed)))
    | tensor t =>
      simp only [hg] at can
      rw [Encoder.save_tensor hg]
      exact Encoder.accepts_once (Encoder.accepts_saveTensor _ can)
    | storageClass name =>
      simp only [hg] at can
      obtain ⟨d, hd⟩ := can
      rw [Encoder.save_storageClass hg hd]
      exact Encoder.accepts_once (Encoder.accepts_saveGlobal _ _)
    | mapping | bytes | emptySet => simp only [hg] at can

theorem accepts_stream (writable : g.Writable tensors top)
    (hc : config.batchSize ≤ Encoder.batchLimit) :
    Encoder.Accepts (Encoder.Entered tensors) (g.stream config top) := by
  refine (Encoder.accepts_emit _).andThen (.andThen ?_ (Encoder.accepts_emit _))
  apply accepts_save writable hc .refl .nil nofun nofun
  have square := Nat.le_mul_self (g.nodes.size + 2)
  unfold Graph.depthLimit
  rw [List.length_nil]
  omega

/-- A graph that can be written is, as long as there are numbers for its objects and storages. -/
theorem Graph.exists_dump {g' : Graph} {id : Nat} (ha : g.asOrdered id = .ok (top, g'))
    (writable : g'.Writable tensors top) (hc : config.batchSize ≤ Encoder.batchLimit)
    (roomy : ((g'.stream config top).perform {}).2.Roomy) : ∃ d, g.dump config id = .ok d := by
  have accepted := accepts_stream writable hc {} ⟨⟨nofun, nofun⟩, nofun⟩
  cases hs : (g'.stream config top).perform {} with
  | mk result e =>
    cases result with
    | ok _ => exact ⟨_, Graph.dump_eq_ok.2 ⟨_, _, e, ha, hs, rfl⟩⟩
    | error error =>
      rw [hs] at roomy
      exact absurd roomy (accepted.of_error hs).2

end Objects

end Checkpoint.Pickle
