import Checkpoint.Archive.Load
import Checkpoint.Proofs.Pickle.Heap
import Checkpoint.Proofs.Pickle.Moves
import Checkpoint.Proofs.Table

/-! What a machine holds is sound in every state: references are to registered storages, names are
rows of the tables, and attributes hide nothing.  A value is sound together with the items of its
tuples, an object together with what it holds; instructions make sound values of sound ones. -/

namespace Checkpoint

/-- A storage of this key is registered, with this type. -/
def Archive.Arena.Registers (a : Arena) (key : Text) (d : DType) : Prop :=
  ∃ blob, a.blobs.get? key = some blob ∧ blob.dtype = d

/-- A reference that has been resolved is to a registered storage, and no registration is lost. -/
theorem Archive.Arena.registers_of_resolve {a b : Arena} {r : Pickle.PersistentRef} {blob : Blob}
    (h : a.resolve r = .ok (blob, b)) :
    b.Registers r.key r.dtype ∧ ∀ key d, a.Registers key d → b.Registers key d := by
  unfold resolve at h
  split at h
  next found hf =>
    split at h
    next same =>
      cases h
      exact ⟨⟨_, hf, same⟩, fun _ _ hr => hr⟩
    next => cases h
  next absent =>
    simp only [bind, Except.bind] at h
    split at h
    next => cases h
    next =>
      split at h
      next => cases h
      next =>
        cases h
        refine ⟨⟨_, Table.get?_insert_self .., rfl⟩, ?_⟩
        rintro key d ⟨found, hf, hd⟩
        refine ⟨found, ?_, hd⟩
        rw [Table.get?_insert_of_ne _, hf]
        rintro rfl
        rw [absent] at hf
        cases hf

namespace Pickle

open Archive Effect

/-- What an object holds: items, or keys and values and the values of attributes. -/
def Object.held : Object → List Value
  | .list items => items
  | .dict entries => entries.keys ++ entries.values
  | .ordered entries attributes => entries.keys ++ entries.values ++ attributes.values

def Object.attributeNames : Object → List Text
  | .ordered _ attributes => attributes.keys
  | _ => []

/-- What a value holds itself. -/
inductive Heap.Holds (h : Heap) : Value → Value → Prop
  | item {items : List Value} {birth : Nat} {v : Value} (mem : v ∈ items) :
    Holds h (.tuple items birth) v
  | held {id : Nat} {o : Object} {v : Value} (there : h.get? id = some o) (mem : v ∈ o.held) :
    Holds h (.object id) v

/-- From a value to itself and to all that it holds. -/
def Heap.Reaches (h : Heap) : Value → Value → Prop := Relation.ReflTransGen h.Holds

/-- What a value has to be by itself. -/
def Value.Listed (a : Arena) : Value → Prop
  | .persistent r => a.Registers r.key r.dtype
  | .tensor t => a.Registers t.storageKey t.dtype
  | .constructor c => findGlobal c.module c.name = .ok (.constructor c)
  | .storageClass name d => DType.ofStorageClass? name = some d
  | .scalarType name d => DType.ofScalarName? name = some d
  | _ => True

/-- A value that is what it has to be, and so are the items of its tuples. -/
inductive Value.Sound (a : Arena) : Value → Prop
  | tuple {items : List Value} {birth : Nat} (each : ∀ v ∈ items, Sound a v) :
    Sound a (.tuple items birth)
  | single {v : Value} (listed : v.Listed a) (single : ∀ items birth, v ≠ .tuple items birth) :
    Sound a v

/-- An object that holds sound values, under names that may be set. -/
structure Object.Sound (a : Arena) (o : Object) : Prop where
  held : ∀ v ∈ o.held, v.Sound a
  names : ∀ name ∈ o.attributeNames, isAttributeName name = true

def Heap.Sound (a : Arena) (h : Heap) : Prop := ∀ id o, h.get? id = some o → o.Sound a

namespace Value

variable {a b : Arena} {v : Value} {items : List Value} {birth : Nat}

theorem sound_tuple : Sound a (.tuple items birth) ↔ ∀ v ∈ items, v.Sound a := by
  constructor
  · rintro (⟨each⟩ | ⟨-, single⟩)
    · exact each
    · exact absurd rfl (single items birth)
  · exact .tuple

theorem Sound.listed (h : v.Sound a) : v.Listed a := by
  cases h with
  | tuple => trivial
  | single listed => exact listed

theorem Sound.mono (h : v.Sound a) (hab : ∀ key d, a.Registers key d → b.Registers key d) :
    v.Sound b := by
  induction h with
  | tuple _ ih => exact .tuple ih
  | @single v listed single =>
    refine .single ?_ single
    cases v <;> first | exact listed | exact hab _ _ listed

theorem sound_object (id : Nat) : Sound a (.object id) := .single trivial nofun

theorem sound_findGlobal {module name : Text} (h : findGlobal module name = .ok v) : v.Sound a := by
  unfold findGlobal at h
  split at h
  · next c hc =>
    cases h
    refine .single ?_ nofun
    change findGlobal c.module c.name = _
    cases c <;> rfl
  · split at h
    · split at h
      · next d hd =>
        cases h
        exact .single hd nofun
      · next d _ hd =>
        cases h
        exact .single hd nofun
      · cases h
    · cases h

end Value

section Objects

variable {a b : Arena} {h : Heap} {o : Object} {v : Value} {items : List Value} {birth : Nat}
  {entries : Table Value Value} {attributes : Table Text Value}

theorem Object.sound_list : (Object.list items).Sound a ↔ ∀ v ∈ items, v.Sound a :=
  ⟨fun h => h.held, fun h => ⟨h, nofun⟩⟩

theorem Object.sound_dict : (Object.dict entries).Sound a ↔
    ∀ e ∈ entries.entries, e.1.Sound a ∧ e.2.Sound a := by
  constructor
  · intro h e he
    exact ⟨h.held _ (List.mem_append_left _ (List.mem_map_of_mem he)),
      h.held _ (List.mem_append_right _ (List.mem_map_of_mem he))⟩
  · intro h
    refine ⟨?_, nofun⟩
    simp only [held, Table.keys, Table.values, List.mem_append, List.mem_map]
    rintro v (⟨e, he, rfl⟩ | ⟨e, he, rfl⟩)
    · exact (h e he).1
    · exact (h e he).2

theorem Object.sound_ordered : (Object.ordered entries attributes).Sound a ↔
    (∀ e ∈ entries.entries, e.1.Sound a ∧ e.2.Sound a) ∧
      ∀ e ∈ attributes.entries, isAttributeName e.1 = true ∧ e.2.Sound a := by
  rw [← sound_dict]
  constructor
  · intro h
    refine ⟨⟨fun v hv => h.held v (List.mem_append_left _ hv), nofun⟩, fun e he => ?_⟩
    exact ⟨h.names _ (List.mem_map_of_mem he),
      h.held _ (List.mem_append_right _ (List.mem_map_of_mem he))⟩
  · rintro ⟨hd, ha⟩
    constructor
    · intro v hv
      obtain hv | hv := List.mem_append.1 hv
      · exact hd.held v hv
      · obtain ⟨e, he, rfl⟩ := List.mem_map.1 hv
        exact (ha e he).2
    · intro name hn
      obtain ⟨e, he, rfl⟩ := List.mem_map.1 hn
      exact (ha e he).1

theorem Object.Sound.mono (ho : o.Sound a) (hab : ∀ key d, a.Registers key d → b.Registers key d) :
    o.Sound b :=
  ⟨fun v hv => (ho.held v hv).mono hab, ho.names⟩

theorem Heap.Sound.set (hh : h.Sound a) (ho : o.Sound a) (id : Nat) : (h.set id o).Sound a := by
  intro id' o' hs
  obtain rfl | hs := eq_or_get?_of_set hs
  · exact ho
  · exact hh id' o' hs

theorem Heap.Sound.allocate (hh : h.Sound a) (ho : o.Sound a) : (h.allocate o).2.Sound a := by
  intro id' o' hs
  obtain rfl | hs := eq_or_get?_of_allocate hs
  · exact ho
  · exact hh id' o' hs

theorem Heap.Sound.reaches (hh : h.Sound a) (hv : v.Sound a) {w : Value} (hw : h.Reaches v w) :
    w.Sound a := by
  induction hw with
  | refl => exact hv
  | tail _ holds ih =>
    cases holds with
    | item mem => exact Value.sound_tuple.1 ih _ mem
    | held there mem => exact (hh _ _ there).held _ mem

theorem sound_enterAll {items : List (Value × Value)}
    (he : ∀ e ∈ entries.entries, e.1.Sound a ∧ e.2.Sound a)
    (hi : ∀ item ∈ items, item.1.Sound a ∧ item.2.Sound a) :
    ∀ e ∈ (enterAll entries items).1.entries, e.1.Sound a ∧ e.2.Sound a := by
  induction items generalizing entries with
  | nil => exact he
  | cons item rest ih =>
    obtain ⟨key, value⟩ := item
    simp only [List.forall_mem_cons] at hi
    unfold enterAll
    split
    · exact ih (Table.forall_entries_insert he hi.1.1 hi.1.2) hi.2
    · exact he

theorem sound_pair? (hh : h.Sound a) (hv : v.Sound a) {item : Value × Value}
    (hp : h.pair? v = some item) : item.1.Sound a ∧ item.2.Sound a := by
  unfold Heap.pair? at hp
  split at hp
  · cases hp
    simpa using Value.sound_tuple.1 hv
  · split at hp
    · next key value hid =>
      cases hp
      simpa using Object.sound_list.1 (hh _ _ hid)
    · cases hp
  · cases hp

theorem sound_pairs (hh : h.Sound a) {pairs : List (Value × Value)}
    (hi : ∀ v ∈ items, v.Sound a) (hp : items.mapM h.pair? = some pairs) :
    ∀ item ∈ pairs, item.1.Sound a ∧ item.2.Sound a := by
  induction items generalizing pairs with
  | nil =>
    cases hp
    nofun
  | cons v rest ih =>
    simp only [List.mapM_cons, Option.bind_eq_bind, Option.bind_eq_some_iff, Option.pure_def,
      Option.some.injEq] at hp
    obtain ⟨item, hitem, rest', hrest, rfl⟩ := hp
    simp only [List.forall_mem_cons] at hi ⊢
    exact ⟨sound_pair? hh hi.1 hitem, ih hi.2 hrest⟩

/-- Calls make sound values of sound ones. -/
theorem Constructor.sound_call {c : Constructor} {h' : Heap} (hh : h.Sound a) (hi : ∀ v ∈ items, v.Sound a)
    (hc : c.call h items birth = .ok (v, h')) : v.Sound a ∧ h'.Sound a := by
  have none : ∀ e ∈ ({} : Table Value Value).entries, e.1.Sound a ∧ e.2.Sound a := nofun
  cases made_of_call hc with
  | empty => exact ⟨Value.sound_object _, hh.allocate (Object.sound_ordered.2 ⟨none, nofun⟩)⟩
  | ordered listed paired entered =>
    have sound := sound_enterAll none (sound_pairs hh (Object.sound_list.1 (hh _ _ listed)) paired)
    rw [entered] at sound
    exact ⟨Value.sound_object _, hh.allocate (Object.sound_ordered.2 ⟨sound, nofun⟩)⟩
  | tensor given key dtype =>
    have registered := (hi _ given).listed
    refine ⟨.single ?_ nofun, hh⟩
    show a.Registers _ _
    rw [key, dtype]
    exact registered
  | parameter given => exact ⟨.single (hi _ given).listed nofun, hh⟩

end Objects

namespace Machine

/-- A machine whose stacks, memo and heap are sound for what the arena has registered. -/
structure SoundIn (a : Arena) (m : Machine) : Prop where
  arena : m.arena = a
  items : ∀ v ∈ m.stack.items, v.Sound a
  suspended : ∀ below ∈ m.stack.suspended, ∀ v ∈ below, v.Sound a
  memo : ∀ e ∈ m.memo.entries, e.2.Sound a
  heap : m.heap.Sound a

abbrev Sound (m : Machine) : Prop := m.SoundIn m.arena

variable {a : Arena} {m : Machine} {config : Config} {c : Cursor} {v : Value} {o : Object}
  {id : Nat} {items : List Value}

theorem SoundIn.sound (h : m.SoundIn a) : m.Sound := by
  rw [Sound, h.arena]
  exact h

theorem SoundIn.withStack (h : m.SoundIn a) {stack : Stack} (hi : ∀ v ∈ stack.items, v.Sound a)
    (hs : ∀ below ∈ stack.suspended, ∀ v ∈ below, v.Sound a) : { m with stack }.SoundIn a :=
  ⟨h.arena, hi, hs, h.memo, h.heap⟩

theorem SoundIn.withHeap (h : m.SoundIn a) {heap : Heap} (hh : heap.Sound a) :
    { m with heap }.SoundIn a :=
  ⟨h.arena, h.items, h.suspended, h.memo, hh⟩

theorem SoundIn.withTrace (h : m.SoundIn a) (c : Cursor) : (m.traced c).SoundIn a :=
  ⟨h.arena, h.items, h.suspended, h.memo, h.heap⟩

/-- What an instruction leaves, or where it fails: a sound machine. -/
abbrev Keeps (x : Running α) (m : Machine) (Q : α → Machine → Prop) : Prop :=
  x.Ensures m Q fun _ m' => m'.Sound

theorem Keeps.sound {x : Running α} (h : Keeps x m fun _ m' => m'.SoundIn a) :
    Keeps x m fun _ m' => m'.Sound :=
  h.post fun _ _ h' => h'.sound

theorem Keeps.bind {α β : Type} {x : Running α} {f : α → Running β} {Q : β → Machine → Prop}
    (h : Keeps x m fun b m' => Keeps (f b) m' Q) : Keeps (x >>= f) m Q :=
  (ensures_bind f).2 h

theorem keeps_pure {α : Type} {b : α} {Q : α → Machine → Prop} (h : Q b m) : Keeps (pure b) m Q :=
  (ensures_pure b).2 h

theorem keeps_refuse (h : m.SoundIn a) (cause : ProtocolError) {Q : α → Machine → Prop} :
    Keeps (refuse cause) m Q :=
  (ensures_refuse cause).2 h.sound

theorem keeps_push (h : m.SoundIn a) (hv : v.Sound a) :
    Keeps (push config v) m fun _ m' => m'.SoundIn a := by
  rw [Keeps, ensures_push]
  split
  · exact h.sound
  · exact h.withStack (List.forall_mem_cons.2 ⟨hv, h.items⟩) h.suspended

theorem keeps_pop (h : m.SoundIn a) {Q : Value → Machine → Prop}
    (hq : ∀ v m', m'.SoundIn a → v.Sound a → Q v m') : Keeps (pop c) m Q := by
  rw [Keeps, ensures_pop]
  split
  · exact h.sound
  · next v rest hs =>
    have each := hs ▸ h.items
    exact hq v _ (h.withStack (fun v hv => each v (.tail _ hv)) h.suspended) (each v (.head _))

theorem keeps_top (h : m.SoundIn a) {Q : Value → Machine → Prop}
    (hq : ∀ v, v.Sound a → Q v m) : Keeps (top c) m Q := by
  rw [Keeps, ensures_top]
  split
  · exact h.sound
  · next v _ hs => exact hq v (h.items v (hs ▸ .head _))

theorem keeps_popMark (h : m.SoundIn a) {Q : List Value → Machine → Prop}
    (hq : ∀ items m', m'.SoundIn a → (∀ v ∈ items, v.Sound a) → Q items m') :
    Keeps (popMark c) m Q := by
  rw [Keeps, ensures_popMark]
  split
  · exact h.sound
  · next below rest hs =>
    have each := hs ▸ h.suspended
    apply hq
    · exact h.withStack (each below (.head _)) fun items hi => each items (.tail _ hi)
    · exact fun v hv => h.items v (List.mem_reverse.1 hv)

theorem keeps_mark (h : m.SoundIn a) : Keeps (mark config) m fun _ m' => m'.SoundIn a := by
  rw [Keeps, ensures_mark]
  split
  · exact h.sound
  · exact h.withStack nofun (List.forall_mem_cons.2 ⟨h.items, h.suspended⟩)

theorem keeps_pushObject (h : m.SoundIn a) (ho : o.Sound a) :
    Keeps (pushObject config o) m fun _ m' => m'.SoundIn a := by
  rw [Keeps, ensures_pushObject]
  exact keeps_push (h.withHeap (h.heap.allocate ho)) (Value.sound_object _)

theorem keeps_setObject (h : m.SoundIn a) (ho : o.Sound a) :
    Keeps (setObject id o) m fun _ m' => m'.SoundIn a :=
  ensures_setObject.2 (h.withHeap (h.heap.set ho id))

theorem keeps_extendList (h : m.SoundIn a) (hi : ∀ v ∈ items, v.Sound a) :
    Keeps (extendList c items) m fun _ m' => m'.SoundIn a := by
  refine .bind (keeps_top h fun target _ => .bind (ensures_get.2 ?_))
  dsimp only
  split
  · split
    · next old ho =>
      apply keeps_setObject h
      rw [Object.sound_list, List.forall_mem_append]
      exact ⟨Object.sound_list.1 (h.heap _ _ ho), hi⟩
    · exact keeps_refuse h _
  · exact keeps_refuse h _

theorem keeps_enterItems (h : m.SoundIn a) {items : List (Value × Value)}
    (hi : ∀ item ∈ items, item.1.Sound a ∧ item.2.Sound a) :
    Keeps (enterItems c items) m fun _ m' => m'.SoundIn a := by
  have finish (hashable : Bool) {m' : Machine} (h' : m'.SoundIn a) :
      Keeps (unless hashable do refuse (.unhashableKey (lastOffset c)) : Running Unit) m'
        fun _ m' => m'.SoundIn a := by
    cases hashable
    · exact keeps_refuse h' _
    · exact keeps_pure h'
  refine .bind (keeps_top h fun target _ => .bind (ensures_get.2 ?_))
  dsimp only
  split
  · split
    · next old ho =>
      refine .bind ((keeps_setObject h ?_).post fun _ _ h' => finish _ h')
      exact Object.sound_dict.2 (sound_enterAll (Object.sound_dict.1 (h.heap _ _ ho)) hi)
    · next old attributes ho =>
      obtain ⟨each, names⟩ := Object.sound_ordered.1 (h.heap _ _ ho)
      refine .bind ((keeps_setObject h ?_).post fun _ _ h' => finish _ h')
      exact Object.sound_ordered.2 ⟨sound_enterAll each hi, names⟩
    · exact keeps_refuse h _
  · exact keeps_refuse h _

theorem sound_alternating (hi : ∀ v ∈ items, v.Sound a) :
    ∀ item ∈ pairs items, item.1.Sound a ∧ item.2.Sound a := by
  induction items using pairs.induct with
  | case1 key value rest ih =>
    simp only [List.forall_mem_cons, pairs] at hi ⊢
    exact ⟨⟨hi.1, hi.2.1⟩, ih hi.2.2⟩
  | case2 items h =>
    rw [pairs.eq_def]
    split
    · exact absurd rfl (h _ _ _)
    · nofun

theorem keeps_memoPut (h : m.SoundIn a) {index : Nat} :
    Keeps (memoPut config c index) m fun _ m' => m'.SoundIn a := by
  rw [Keeps, ensures_memoPut]
  split
  · exact h.sound
  · apply keeps_top h
    intro v hv
    refine ⟨h.arena, h.items, h.suspended, ?_, h.heap⟩
    have each : ∀ e ∈ m.memo.entries, True ∧ e.2.Sound a := fun e he => ⟨trivial, h.memo e he⟩
    exact fun e he => (Table.forall_entries_insert (P := fun _ => True) each trivial hv e he).2

theorem keeps_memoGet (h : m.SoundIn a) {index : Nat} :
    Keeps (memoGet config index) m fun _ m' => m'.SoundIn a := by
  rw [Keeps, ensures_memoGet]
  split
  · next v hv => exact keeps_push h (h.memo _ (Table.mem_entries_of_get? hv))
  · exact h.sound

theorem keeps_pushGlobal (h : m.SoundIn a) {module name : Text} :
    Keeps (pushGlobal config module name) m fun _ m' => m'.SoundIn a := by
  unfold pushGlobal
  split
  · next v hv => exact keeps_push h (Value.sound_findGlobal hv)
  · exact keeps_refuse h _

theorem keeps_reduce (h : m.SoundIn a) : Keeps (reduce c) m fun _ m' => m'.SoundIn a := by
  refine .bind (keeps_pop h fun arguments m h hi => .bind (keeps_top h fun target _ =>
    .bind (ensures_get.2 ?_)))
  split
  · split
    · next items birth =>
      split
      · next v heap hc =>
        obtain ⟨hv, hh⟩ := Constructor.sound_call h.heap (Value.sound_tuple.1 hi) hc
        refine (ensures_set _).2 ⟨h.arena, ?_, h.suspended, h.memo, hh⟩
        exact List.forall_mem_cons.2 ⟨hv, fun w hw => h.items w (List.mem_of_mem_tail hw)⟩
      · exact (ensures_throw _).2 h.sound
    · exact keeps_refuse h _
  · exact keeps_refuse h _

theorem keeps_setAttributes (h : m.SoundIn a) {items : List (Value × Value)}
    (hi : ∀ item ∈ items, item.2.Sound a) :
    Keeps (setAttributes id items) m fun _ m' => m'.SoundIn a := by
  induction items generalizing m with
  | nil => exact keeps_pure h
  | cons item rest ih =>
    obtain ⟨key, value⟩ := item
    simp only [List.forall_mem_cons] at hi
    refine .bind (ensures_get.2 ?_)
    dsimp only
    split
    · next name entries attributes ho =>
      split
      · next allowed =>
        obtain ⟨each, names⟩ := Object.sound_ordered.1 (h.heap _ _ ho)
        refine .bind ((keeps_setObject h ?_).post fun _ _ h' => ih h' hi.2)
        exact Object.sound_ordered.2 ⟨each,
          Table.forall_entries_insert (P := fun name => isAttributeName name = true) names allowed hi.1⟩
      · exact keeps_refuse h _
    · exact keeps_refuse h _

theorem keeps_build (h : m.SoundIn a) : Keeps (build c) m fun _ m' => m'.SoundIn a := by
  refine .bind (keeps_pop h fun state m h _ => .bind (keeps_top h fun target _ =>
    .bind (ensures_get.2 ?_)))
  dsimp only
  split
  · split
    · exact keeps_refuse h _
    · exact keeps_pure h
  · split
    · split
      · next entries ho =>
        exact keeps_setAttributes h fun e he => (Object.sound_dict.1 (h.heap _ _ ho) e he).2
      · next entries _ ho =>
        exact keeps_setAttributes h fun e he => ((Object.sound_ordered.1 (h.heap _ _ ho)).1 e he).2
      · exact keeps_refuse h _
    · exact keeps_refuse h _
  · exact keeps_refuse h _

theorem SoundIn.withArena {b : Arena} (h : m.SoundIn a)
    (hab : ∀ key d, a.Registers key d → b.Registers key d) :
    { m with arena := b }.SoundIn b where
  arena := rfl
  items v hv := (h.items v hv).mono hab
  suspended below hb v hv := (h.suspended below hb v hv).mono hab
  memo e he := (h.memo e he).mono hab
  heap id o ho := (h.heap id o ho).mono hab

theorem keeps_resolvePersistent (h : m.SoundIn a) :
    Keeps (resolvePersistent config c) m fun _ m' => m'.Sound := by
  refine .bind (keeps_pop h fun id m h _ => .bind (ensures_get.2 ?_))
  refine ensures_check (fun _ _ => h.sound) fun ref _ => ?_
  refine ensures_check (fun _ _ => h.sound) ?_
  rintro ⟨blob, b⟩ hr
  rw [h.arena] at hr
  obtain ⟨here, kept⟩ := Arena.registers_of_resolve hr
  exact Keeps.bind ((ensures_set _).2
    (keeps_push (h.withArena kept) (.single (v := .persistent ref) here nofun)).sound)

/-- Every instruction keeps a machine sound, whether it succeeds or fails. -/
theorem keeps_execute (h : m.SoundIn a) (i : Instruction) :
    Keeps (execute config c i) m fun _ m' => m'.Sound := by
  have leaf {v : Value} (listed : v.Listed a) (single : ∀ items birth, v ≠ .tuple items birth) :
      Keeps (push config v) m fun _ m' => m'.Sound :=
    (keeps_push h (.single listed single)).sound
  have tuple {m : Machine} (h : m.SoundIn a) {items : List Value} (each : ∀ v ∈ items, v.Sound a) :
      Keeps (push config (.tuple items c.position)) m fun _ m' => m'.Sound :=
    (keeps_push h (.tuple each)).sound
  cases i with
  | proto version =>
    simp only [execute]
    split
    · exact .bind (keeps_refuse h _)
    · have h := h.sound
      exact (ensures_modify _).2 ⟨rfl, h.items, h.suspended, h.memo, h.heap⟩
  | frame size =>
    simp only [execute]
    split
    · exact keeps_refuse h _
    · exact keeps_pure h.sound
  | stop => exact keeps_pure h.sound
  | mark => exact (keeps_mark h).sound
  | pop =>
    refine .bind (ensures_get.2 ?_)
    split
    · exact .bind (keeps_popMark h fun _ _ h' _ => keeps_pure h'.sound)
    · exact .bind (keeps_pop h fun _ _ h' _ => keeps_pure h'.sound)
  | popMark => exact .bind (keeps_popMark h fun _ _ h' _ => keeps_pure h'.sound)
  | none | bool | int1 | int2 | int4 | long | float | unicode | shortUnicode | unicode8 | string
  | shortString | bytes | shortBytes => exact leaf trivial nofun
  | emptyTuple => exact tuple h nofun
  | tuple => exact .bind (keeps_popMark h fun _ _ h' each => tuple h' each)
  | tuple1 => exact .bind (keeps_pop h fun a m₁ h₁ ha => tuple h₁ (by simpa using ha))
  | tuple2 =>
    exact .bind (keeps_pop h fun b m₁ h₁ hb => .bind (keeps_pop h₁ fun a m₂ h₂ ha =>
      tuple h₂ (by simp [ha, hb])))
  | tuple3 =>
    exact .bind (keeps_pop h fun d m₁ h₁ hd => .bind (keeps_pop h₁ fun b m₂ h₂ hb =>
      .bind (keeps_pop h₂ fun a m₃ h₃ ha => tuple h₃ (by simp [ha, hb, hd]))))
  | emptyList =>
    exact (keeps_pushObject h (Object.sound_list.2 (List.forall_mem_nil _))).sound
  | emptyDict =>
    exact (keeps_pushObject h (Object.sound_dict.2 (List.forall_mem_nil _))).sound
  | append =>
    exact .bind (keeps_pop h fun v m₁ h₁ hv => (keeps_extendList h₁ (by simpa using hv)).sound)
  | appends => exact .bind (keeps_popMark h fun items m₁ h₁ each => (keeps_extendList h₁ each).sound)
  | setItem =>
    exact .bind (keeps_pop h fun value m₁ h₁ hv => .bind (keeps_pop h₁ fun key m₂ h₂ hk =>
      (keeps_enterItems h₂ (by simp [hk, hv])).sound))
  | setItems =>
    refine .bind (keeps_popMark h fun items m₁ h₁ each => ?_)
    split
    · exact .bind (keeps_refuse h₁ _)
    · exact (keeps_enterItems h₁ (sound_alternating each)).sound
  | put | longPut => exact (keeps_memoPut h).sound
  | memoize => exact .bind (ensures_get.2 (keeps_memoPut h).sound)
  | get | longGet => exact (keeps_memoGet h).sound
  | «global» => exact (keeps_pushGlobal h).sound
  | stackGlobal =>
    refine .bind (keeps_pop h fun name m₁ h₁ _ => .bind (keeps_pop h₁ fun module m₂ h₂ _ => ?_))
    split
    · exact (keeps_pushGlobal h₂).sound
    · exact keeps_refuse h₂ _
  | reduce => exact (keeps_reduce h).sound
  | build => exact (keeps_build h).sound
  | persistentId => exact keeps_resolvePersistent h

theorem keeps_result (h : m.SoundIn a) :
    Keeps (result c) m fun v m' => m'.SoundIn a ∧ v.Sound a := by
  refine .bind (keeps_pop h fun v m₁ h₁ hv => .bind (ensures_get.2 ?_))
  dsimp only
  split
  · exact keeps_pure ⟨h₁, hv⟩
  · exact .bind ((ensures_throw _).2 h₁.sound)

/-- A whole run keeps a machine sound, and what it gives is sound. -/
theorem keeps_run (h : m.Sound) (c : Cursor) :
    Keeps (run config c) m fun (v, _) m' => m'.Sound ∧ v.Sound m'.arena := by
  induction c using run.induct generalizing m with
  | case1 c e hr =>
    rw [run_of_error hr]
    exact keeps_refuse h _
  | case2 c next hr =>
    rw [run_of_stop hr, Keeps, ensures_bind]
    refine (keeps_result h).post fun v m' ⟨h', hv⟩ => ?_
    exact (ensures_pure _).2 ⟨h'.sound, h'.arena.symm ▸ hv⟩
  | case3 c i next hr _ hi ih =>
    rw [run_of_read hr hi, Keeps, ensures_bind]
    refine (keeps_execute h i).post fun _ m' h' => ?_
    rw [ensures_bind, ensures_modify]
    exact ih (h'.withTrace next)

theorem sound_start (arena : Arena) : ({ arena } : Machine).Sound :=
  ⟨rfl, nofun, nofun, nofun, fun _ _ ho => by cases ho⟩

theorem Reaches.sound {arena : Arena} {bytes : Bytes} (h : Reaches config (start arena bytes) (c, m)) :
    m.Sound :=
  Reaches.induction (P := Sound) (fun _ _ h => h.withTrace _)
    (fun _ _ i h => (keeps_execute h i).mono (fun _ _ h => h) fun _ _ _ => trivial) h
    (sound_start arena)

end Machine

end Pickle

end Checkpoint
