import Checkpoint.Proofs.Outcomes
import Checkpoint.Proofs.Pickle.MemoSoundness

/-! What the writer keeps.  A condition on its state that is kept by each of its four steps - an instruction
that stores nothing, a store, another number for an object that occurs nowhere else, and the call that
makes a tensor - is kept by whatever it writes. -/

namespace Checkpoint.Pickle

open Effect

/-- An instruction that neither stores nor refers to a storage. -/
structure Instruction.IsPlain (i : Instruction) : Prop where
  stored : i.storedAt? = Option.none
  other : i ≠ .persistentId

/-- What makes an object that is told apart by its content. -/
def Identity.content? : Identity → Option Instruction
  | .short t => some (.unicode t)
  | .storageWord => some (.unicode Encoder.storageWord)
  | .storageKey n => some (.unicode (Text.ofNat n))
  | .locationWord => some (.unicode Encoder.locationWord)
  | .global module name => some (.global module name)
  | .node _ | .temporary _ => none

theorem Identity.content?_ofText {t : Text} {o : Identity} (h : o.content? = none) {i : Instruction}
    (hi : (Identity.ofText t o).content? = some i) : i = .unicode t := by
  unfold Identity.ofText at hi
  split at hi
  · cases hi
    rfl
  · rw [h] at hi
    cases hi

namespace Encoder

/-- An object is about to be stored: if it is told apart by its content, that has just been made, for the
first time. -/
def Made (e : Encoder) (o : Identity) : Prop :=
  ∀ i, o.content? = some i → e.output.head?.map Written.instruction = some i ∧ e.memo.get? o = none

theorem made_node (e : Encoder) (id : Nat) : e.Made (.node id) := nofun

theorem ensures_memoize {o : Identity} {e : Encoder} {Q : Unit → Encoder → Prop}
    {E : Error → Encoder → Prop}
    (stored : ∀ i, i.storedAt? = some e.memo.size → Q () { e with
      output := { instruction := i, object := some o } :: e.output
      memo := e.memo.insert o e.memo.size })
    (refused : ∀ error, putInstruction e.memo.size = .error error → E error e) :
    (memoize o).Ensures e Q E := by
  unfold memoize emitFor
  simp only [write, ensures_bind, ensures_get, ensures_modify]
  exact ensures_ofExcept (fun i hi => stored i (putInstruction_eq_ok hi).1) refused

/-- A condition that each step of the writer keeps, where only some nodes are stored. -/
structure Kept (P : Error → Prop) (N : Nat → Prop) (I : Encoder → Prop) : Prop where
  overflow : P .fieldOverflow
  write : ∀ e w, I e → w.instruction.IsPlain → I { e with output := w :: e.output }
  store : ∀ e o i, I e → e.Made o → (∀ id, o = .node id → N id) → i.storedAt? = some e.memo.size →
    I { e with
      output := { instruction := i, object := some o } :: e.output
      memo := e.memo.insert o e.memo.size }
  count : ∀ e n, I e → I { e with temporaries := n }

namespace Kept

variable {P : Error → Prop} {N : Nat → Prop} {I : Encoder → Prop} {o : Identity} {e : Encoder}

/-- What is kept for each of some parameters is kept for some parameter. -/
theorem exists_of_forall {α : Type} [Nonempty α] {J : α → Encoder → Prop} (k : ∀ a, Kept P N (J a)) :
    Kept P N fun e => ∃ a, J a e where
  overflow := (k (Classical.arbitrary α)).overflow
  write e w := fun ⟨a, h⟩ plain => ⟨a, (k a).write e w h plain⟩
  store e o i := fun ⟨a, h⟩ made node stored => ⟨a, (k a).store e o i h made node stored⟩
  count e n := fun ⟨a, h⟩ => ⟨a, (k a).count e n h⟩

section Steps

theorem emit (k : Kept P N I) (i : Instruction) (h : i.IsPlain) : Sustains P I (emit i) :=
  sustains_modify fun _ he => k.write _ _ he h

theorem emitChecked (k : Kept P N I) {r : Except Error Instruction} (plain : ∀ i, r = .ok i → i.IsPlain)
    (refused : ∀ error, r = .error error → P error) : Sustains P I (emitChecked r) := by
  intro e he
  exact ensures_check refused fun i hi => k.emit i (plain i hi) e he

theorem memoInstruction_refused (k : Kept P N I) {short : UInt8 → Instruction}
    {long : UInt32 → Instruction} {n : Nat} {error : Error}
    (h : memoInstruction short long n = .error error) : P error := by
  unfold memoInstruction at h
  rw [if_neg (by omega)] at h
  split at h
  · cases h
  · split at h
    · cases h
    · cases h
      exact k.overflow

theorem fetch (k : Kept P N I) (o : Identity) (n : Nat) : Sustains P I (emitFor o (getInstruction n)) := by
  intro e he
  refine ensures_check (fun _ => k.memoInstruction_refused) fun i hi => (ensures_modify _).2 ?_
  obtain ⟨hs, hf⟩ := getInstruction_eq_ok hi
  refine k.write e _ he ⟨hs, ?_⟩
  rintro rfl
  cases hf

theorem memoize (k : Kept P N I) (he : I e) (made : e.Made o) (node : ∀ id, o = .node id → N id) :
    (memoize o).Ensures e (fun _ e' => I e') fun error _ => P error :=
  ensures_memoize (fun i hi => k.store e o i he made node hi) fun _ => k.memoInstruction_refused

theorem memoizeNode (k : Kept P N I) {id : Nat} (h : N id) : Sustains P I (Encoder.memoize (.node id)) :=
  fun e he => k.memoize he (e.made_node id) fun _ same => by cases same; exact h

theorem fresh (k : Kept P N I) {f : Identity → Encoding Unit}
    (next : ∀ n, Sustains P I (f (.temporary n))) : Sustains P I (fresh >>= f) := by
  intro e he
  unfold Encoder.fresh
  simp only [ensures_bind, ensures_get, ensures_modify, ensures_pure]
  exact next _ _ (k.count e _ he)

theorem memoizeFresh (k : Kept P N I) : Sustains P I memoizeFresh :=
  k.fresh fun _ _ he => k.memoize he nofun nofun

/-- What has not been written is written, or else fetched. -/
theorem once (k : Kept P N I) {x : Encoding Unit}
    (h : ∀ e, I e → e.memo.get? o = none → x.Ensures e (fun _ e' => I e') fun error _ => P error) :
    Sustains P I (once o x) := by
  intro e he
  unfold Encoder.once
  rw [ensures_bind, ensures_get]
  split
  · exact k.fetch _ _ e he
  · next absent => exact h e he absent

/-- An object that is told apart by its content, or by nothing, is made and stored. -/
theorem make (k : Kept P N I) {r : Except Error Instruction} (plain : ∀ i, r = .ok i → i.IsPlain)
    (refused : ∀ error, r = .error error → P error)
    (content : ∀ i j, r = .ok i → o.content? = some j → j = i) (node : ∀ id, o = .node id → N id) :
    Sustains P I (Encoder.once o (Encoder.emitChecked r >>= fun _ => Encoder.memoize o)) := by
  apply k.once
  intro e he absent
  unfold Encoder.emitChecked
  rw [bind_assoc]
  refine ensures_check refused fun i hi => ?_
  rw [ensures_bind]
  refine (ensures_modify _).2 (k.memoize (k.write e _ he (plain i hi)) ?_ node)
  intro j hj
  obtain rfl := content i j hi hj
  exact ⟨rfl, absent⟩

end Steps

section Actions

theorem isPlain_of_textInstruction {t : Text} {i : Instruction} (h : textInstruction t = .ok i) :
    i.IsPlain := by
  obtain rfl := textInstruction_eq_ok h
  exact ⟨rfl, nofun⟩

theorem saveText (k : Kept P N I) {t : Text} (content : ∀ i, o.content? = some i → i = .unicode t)
    (node : ∀ id, o = .node id → N id) : Sustains P I (saveText o t) := by
  refine k.make (fun i => isPlain_of_textInstruction) ?_ ?_ node
  · intro error refused
    unfold textInstruction at refused
    split at refused <;> cases refused
    exact k.overflow
  · intro i j hi hj
    rw [content j hj, textInstruction_eq_ok hi]

theorem saveGlobal (k : Kept P N I) (module name : Text) : Sustains P I (saveGlobal module name) := by
  refine k.make (r := .ok (.global module name)) ?_ nofun ?_ nofun
  · rintro _ ⟨⟩
    exact ⟨rfl, nofun⟩
  · rintro _ _ ⟨⟩ ⟨⟩
    rfl

theorem isPlain_of_intInstruction {n : Int} {i : Instruction} (h : intInstruction n = .ok i) :
    i.IsPlain := by
  obtain ⟨_, rfl⟩ | ⟨_, rfl⟩ | ⟨_, rfl⟩ | ⟨_, rfl⟩ := intInstruction_eq_ok h <;> exact ⟨rfl, nofun⟩

theorem saveInt (k : Kept P N I) {n : Int} (h : ∀ error, intInstruction n = .error error → P error) :
    Sustains P I (saveInt n) :=
  k.emitChecked (fun _ => isPlain_of_intInstruction) h

theorem orderedDict (k : Kept P N I) : Sustains P I orderedDict :=
  (k.saveGlobal _ _).bind fun _ => (k.emit .emptyTuple ⟨rfl, nofun⟩).bind fun _ =>
    k.emit .reduce ⟨rfl, nofun⟩

theorem isPlain_tupleInstruction (n : Nat) : (tupleInstruction n).IsPlain := by
  unfold tupleInstruction
  split <;> exact ⟨rfl, nofun⟩

theorem saveTuple (k : Kept P N I) {identity : Encoding Identity} {items : List (Encoding Unit)}
    (stored : Sustains P I (identity >>= Encoder.memoize)) (h : ∀ item ∈ items, Sustains P I item) :
    Sustains P I (saveTuple identity items) := by
  have close : Sustains P I (items.forM id >>= fun _ => Encoder.emit (tupleInstruction items.length) >>=
      fun _ => identity >>= Encoder.memoize) :=
    (sustains_forM h).bind fun _ => (k.emit _ (isPlain_tupleInstruction _)).bind fun _ => stored
  unfold Encoder.saveTuple
  split
  · exact k.emit .emptyTuple ⟨rfl, nofun⟩
  · dsimp only
    split
    · exact (k.emit .mark ⟨rfl, nofun⟩).bind fun _ => close
    · exact close

theorem saveBatch (k : Kept P N I) (single several : Instruction) (one : single.IsPlain)
    (more : several.IsPlain) {batch : List (Encoding Unit)} (h : ∀ item ∈ batch, Sustains P I item) :
    Sustains P I (saveBatch single several batch) := by
  unfold Encoder.saveBatch
  split
  · exact (h _ List.mem_cons_self).bind fun _ => k.emit _ one
  · exact (k.emit .mark ⟨rfl, nofun⟩).bind fun _ => (sustains_forM h).bind fun _ => k.emit _ more

theorem saveItems (k : Kept P N I) {config : Config} (single several : Instruction)
    (one : single.IsPlain) (more : several.IsPlain) {items : List (Encoding Unit)}
    (unbounded : batchLimit < config.batchSize → P (.rangeFault .batchSize))
    (h : ∀ item ∈ items, Sustains P I item) : Sustains P I (saveItems config single several items) := by
  have batched : Sustains P I ((batches config.batchSize items).forM
      (Encoder.saveBatch single several)) :=
    sustains_forM fun _ hb => k.saveBatch _ _ one more fun item hi => h item (mem_of_mem_batches hb hi)
  unfold Encoder.saveItems
  split
  · next past => exact (sustains_throw (unbounded past)).bind fun _ => batched
  · exact batched

theorem saveSizes (k : Kept P N I) {sizes : List Nat}
    (h : ∀ n ∈ sizes, ∀ error, intInstruction (n : Nat) = .error error → P error) :
    Sustains P I (saveSizes sizes) := by
  apply k.saveTuple k.memoizeFresh
  rw [List.forall_mem_map]
  exact fun n hn => k.saveInt (h n hn)

end Actions

section Objects

variable {g : Graph} {config : Config} {fuel : Nat}

theorem saveMembers (k : Kept P N I) {members : List Nat}
    (unbounded : batchLimit < config.batchSize → P (.rangeFault .batchSize))
    (h : ∀ item ∈ members, Sustains P I (Encoder.save config g fuel item)) :
    Sustains P I (Encoder.saveItems config .append .appends (members.map (Encoder.save config g fuel))) :=
  k.saveItems .append .appends ⟨rfl, nofun⟩ ⟨rfl, nofun⟩ unbounded (List.forall_mem_map.2 h)

theorem saveEntries (k : Kept P N I) {entries : List (Nat × Nat)}
    (unbounded : batchLimit < config.batchSize → P (.rangeFault .batchSize))
    (h : ∀ e ∈ entries, Sustains P I (Encoder.save config g fuel e.1) ∧
      Sustains P I (Encoder.save config g fuel e.2)) :
    Sustains P I (Encoder.saveItems config .setItem .setItems (entries.map (saveEntry config g fuel))) := by
  apply k.saveItems .setItem .setItems ⟨rfl, nofun⟩ ⟨rfl, nofun⟩ unbounded
  rw [List.forall_mem_map]
  exact fun e he => (h e he).1.bind fun _ => (h e he).2

theorem saveAttributes (k : Kept P N I) {attributes : List (Text × Nat)}
    (unbounded : batchLimit < config.batchSize → P (.rangeFault .batchSize))
    (h : ∀ a ∈ attributes, Sustains P I (Encoder.save config g fuel a.2)) :
    Sustains P I (saveAttributes config g fuel attributes) := by
  unfold Encoder.saveAttributes
  split
  · exact sustains_pure _
  · refine (k.emit .emptyDict ⟨rfl, nofun⟩).bind fun _ => k.memoizeFresh.bind fun _ =>
      (k.saveItems .setItem .setItems ⟨rfl, nofun⟩ ⟨rfl, nofun⟩ unbounded ?_).bind
        fun _ => k.emit .build ⟨rfl, nofun⟩
    rw [List.forall_mem_map]
    intro a ha
    refine k.fresh fun n => (k.saveText (fun i => Identity.content?_ofText rfl) ?_).bind fun _ => h a ha
    unfold Identity.ofText
    split <;> rintro _ ⟨⟩

/-- Whatever is written keeps what tensors keep. -/
theorem save (k : Kept (fun _ => True) N I) (config : Config) (fuel : Nat) {id : Nat}
    (nodes : ∀ n, g.Reaches id n → (∀ t, g.node n ≠ .tensor t) → N n)
    (tensors : ∀ n t, g.Reaches id n → g.node n = .tensor t →
      Preserves I (Encoder.once (.node n) (saveTensor g.memory (.node n) t))) :
    Preserves I (save config g fuel id) := by
  induction fuel generalizing id with
  | zero => exact sustains_throw trivial
  | succ fuel ih =>
    have child {item : Nat} (h : g.Holds id item) : Preserves I (Encoder.save config g fuel item) :=
      ih (fun n hn => nodes n (.head h hn)) fun n t hn => tensors n t (.head h hn)
    have written {x : Encoding Unit} {o : Identity} (h : Preserves I x) : Preserves I (Encoder.once o x) :=
      k.once fun e he _ => h e he
    have stored {node : Node} (hg : g.node id = node) (other : ∀ t, node ≠ .tensor t) :
        Preserves I (Encoder.memoize (.node id)) :=
      k.memoizeNode (nodes id .refl fun t ht => other t (hg.symm.trans ht))
    cases hg : g.node id with
    | none | bool | float =>
      rw [save_node hg nofun nofun]
      exact written (k.emit _ ⟨rfl, nofun⟩)
    | int n =>
      rw [save_node hg nofun nofun]
      exact written (k.saveInt fun _ _ => trivial)
    | text t =>
      rw [save_text hg]
      refine written (k.saveText ?_ fun n hn => ?_)
      · rw [Graph.identity_of_text hg]
        exact fun i => Identity.content?_ofText rfl
      · rw [Graph.identity_eq_node hn]
        exact nodes id .refl (by simp [hg])
    | tuple members =>
      rw [save_tuple hg]
      refine written (k.saveTuple ?_ (List.forall_mem_map.2 fun item hi =>
        child (Graph.holds_of_tuple hg item hi)))
      rw [pure_bind]
      exact stored hg nofun
    | list members =>
      rw [save_list hg]
      exact written ((k.emit .emptyList ⟨rfl, nofun⟩).bind fun _ => (stored hg nofun).bind fun _ =>
        k.saveMembers (fun _ => trivial) fun item hi => child (Graph.holds_of_list hg item hi))
    | dict entries =>
      rw [save_dict hg]
      exact written ((k.emit .emptyDict ⟨rfl, nofun⟩).bind fun _ => (stored hg nofun).bind fun _ =>
        k.saveEntries (fun _ => trivial) fun e he => (Graph.holds_of_dict hg e he).imp child child)
    | ordered entries attributes =>
      rw [save_ordered hg]
      have entered : Sustains (fun _ => True) I
          (Encoder.saveItems config .setItem .setItems (entries.map (saveEntry config g fuel))) :=
        k.saveEntries (fun _ => trivial) fun e he => (Graph.holds_of_ordered hg e he).imp child child
      exact written (k.orderedDict.bind fun _ => (stored hg nofun).bind fun _ => entered.bind fun _ =>
        k.saveAttributes (fun _ => trivial) fun a ha => child (Graph.holds_of_attribute hg a ha))
    | tensor t =>
      rw [save_tensor hg]
      exact tensors id t .refl hg
    | storageClass name =>
      cases classed : DType.ofStorageClass? name with
      | some d =>
        rw [save_storageClass hg classed]
        exact written (k.saveGlobal _ _)
      | none =>
        rw [save_otherClass hg classed]
        exact written (sustains_throw trivial)
    | mapping | bytes | emptySet =>
      rw [save_node hg nofun nofun]
      exact written (sustains_throw trivial)

/-- A stream keeps what tensors keep. -/
theorem stream (k : Kept (fun _ => True) N I) (config : Config) {top : Nat}
    (nodes : ∀ n, g.Reaches top n → (∀ t, g.node n ≠ .tensor t) → N n)
    (tensors : ∀ n t, g.Reaches top n → g.node n = .tensor t →
      Preserves I (Encoder.once (.node n) (saveTensor g.memory (.node n) t))) :
    Preserves I (g.stream config top) :=
  (k.emit (.proto Graph.protocol) ⟨rfl, nofun⟩).bind fun _ =>
    (k.save config _ nodes tensors).bind fun _ => k.emit .stop ⟨rfl, nofun⟩

end Objects

end Kept

end Encoder

end Checkpoint.Pickle
