import Checkpoint.Proofs.Pickle.Objects

/-! How tensors come back as references to views.  A storage is registered when it is first referred
to; the constructor of a tensor then makes the view that was written. -/

namespace Checkpoint.Pickle

open Archive Effect Encoder

section Storages

variable {S : Scene} {N : Nat → Prop} {memo : Table Identity Nat} {w : World} {p p' n : Nat}
  {m m' : Machine} {use : StorageUse} {t : Tensor} {e : Encoder}

theorem Sim.resolve (h : Sim S memo w p m) (hu : S.uses[n]? = some use) :
    ∃ blobs, m.arena.resolve (S.reference n use) = .ok (S.blob n use, { m.arena with blobs }) ∧
      (∀ key blob, blobs.get? key = some blob →
        ∃ n use, S.uses[n]? = some use ∧ key = Text.ofNat n ∧ blob = S.blob n use) ∧
      (∀ key blob, m.arena.blobs.get? key = some blob → blobs.get? key = some blob) ∧
      blobs.get? (Text.ofNat n) = some (S.blob n use) := by
  unfold Arena.resolve
  cases hb : m.arena.blobs.get? (S.reference n use).key with
  | some blob =>
    obtain ⟨n', use', hu', hkey, rfl⟩ := h.blobs _ _ hb
    obtain rfl := Text.ofNat_injective hkey
    cases hu.symm.trans hu'
    exact ⟨m.arena.blobs, if_pos rfl, h.blobs, fun _ _ h => h, hb⟩
  | none =>
    have present := S.present n use hu
    have size : (((use.count S.graph.memory * use.dtype.size : Nat)) : Int) =
        (S.reference n use).count * ((S.reference n use).dtype.size : Int) := by
      push_cast
      rfl
    rw [← h.reader] at present
    refine ⟨m.arena.blobs.insert (Text.ofNat n) (S.blob n use), ?_, ?_, ?_, ?_⟩
    · change (m.arena.reader.storageSize (Text.ofNat n) >>= fun actual => _) = _
      rw [present]
      simp only [bind, Except.bind, size, ne_eq, not_true_eq_false, if_false]
      rfl
    · intro key blob hkey
      rw [Table.get?_insert] at hkey
      split at hkey
      · next heq =>
        cases hkey
        exact ⟨n, use, hu, (eq_of_beq heq).symm, rfl⟩
      · exact h.blobs key blob hkey
    · intro key blob hkey
      rw [Table.get?_insert_of_ne _, hkey]
      rintro rfl
      exact absurd (hb.symm.trans hkey) nofun
    · exact Table.get?_insert_self ..

theorem Sim.register {blobs : Table Text Blob} (h : Sim S memo w p m) (hu : S.uses[n]? = some use)
    (each : ∀ key blob, blobs.get? key = some blob →
      ∃ n use, S.uses[n]? = some use ∧ key = Text.ofNat n ∧ blob = S.blob n use)
    (kept : ∀ key blob, m.arena.blobs.get? key = some blob → blobs.get? key = some blob)
    (here : blobs.get? (Text.ofNat n) = some (S.blob n use)) (hp : p ≤ p') (hm : m'.memo = m.memo)
    (hh : m'.heap = m.heap) (ha : m'.arena = { m.arena with blobs }) :
    Sim S memo (w.withRegistered n) p' m' where
  numbers := h.numbers
  stands o k hk := by
    obtain ⟨v, hv, hs⟩ := h.stands o k hk
    exact ⟨v, by rw [hm]; exact hv, hs.mono (World.extends_withRegistered n)⟩
  clock := h.clock.trans hp
  births birth id hb := (h.births birth id hb).trans hp
  stored := h.stored
  once := h.once
  placed := by rw [hh]; exact h.placed
  apart := h.apart
  reader := by rw [ha]; exact h.reader
  unread := by rw [ha]; exact h.unread
  blobs := by rw [ha]; exact each
  registered k hk := by
    rw [ha]
    obtain rfl | hk := hk
    · exact ⟨use, hu, here⟩
    · obtain ⟨use', hu', hb⟩ := h.registered k hk
      exact ⟨use', hu', kept _ _ hb⟩

/-- The use of a tensor's storage among those of the stream. -/
def Uses (S : Scene) (t : Tensor) (n : Nat) : Prop :=
  n = storageNumber S.uses t ∧
    ∃ use, S.uses[n]? = some use ∧ use.storage = t.storage ∧ use.dtype = t.dtype

theorem uses_of_prefix {uses : List StorageUse} (hp : uses <+: S.uses)
    (hn : uses.findIdx? (·.storage == t.storage) = some n)
    (hd : ∀ use ∈ S.uses, uses[n]? = some use → use.storage = t.storage → use.dtype = t.dtype) :
    Uses S t n := by
  obtain ⟨rest, hrest⟩ := hp
  obtain ⟨hlt, hf⟩ := List.findIdx?_eq_some_iff_findIdx_eq.1 hn
  have found : (uses[n].storage == t.storage) = true := by
    subst hf
    exact List.findIdx_getElem (p := fun use : StorageUse => use.storage == t.storage)
  have here : uses[n]? = some uses[n] := List.getElem?_eq_getElem hlt
  have inside : uses[n] ∈ S.uses := hrest ▸ List.mem_append_left _ (List.getElem_mem hlt)
  refine ⟨?_, uses[n], ?_, eq_of_beq found, hd _ inside here (eq_of_beq found)⟩
  · rw [storageNumber, ← hrest, List.findIdx_append, if_pos (by omega), hf]
  · rw [← hrest, List.getElem?_append_left hlt, here]

theorem follows_useStorage (he : Orderly True e) (ht : S.tensors t) :
    (useStorage S.graph.memory t).Ensures e (fun n e' =>
      (Orderly True e' ∧ StoresWithin N e e') ∧ Follows S e e' (fun _ _ => True)
        fun w m w' m' => (w' = w ∧ m' = m) ∧ Uses S t n) fun _ _ => True := by
  have kept := (stores_useStorage (P := True) (N := N) S.graph.memory t e he).ensures
  suffices followed : (useStorage S.graph.memory t).Ensures e (fun n e' => Follows S e e'
      (fun _ _ => True) fun w m w' m' => (w' = w ∧ m' = m) ∧ Uses S t n) fun _ _ => True from
    (kept.and followed).mono (fun _ _ h => h) fun _ _ _ => trivial
  have steady (n : Nat) (uses : List StorageUse) (hp : e.storages <+: uses)
      (entered : Entered S.tensors e.storages → Entered S.tensors uses)
      (hu : uses <+: S.uses → Uses S t n) :
      Follows S e { e with storages := uses } (fun _ _ => True)
        fun w m w' m' => (w' = w ∧ m' = m) ∧ Uses S t n := by
    refine ⟨[], (List.append_nil _).symm, hp, entered, ?_⟩
    intro hp' w c next m sim _ spells
    obtain rfl := Cursor.spells_nil.1 spells
    exact .here ⟨rfl, w, sim, ⟨rfl, rfl⟩, hu hp'⟩
  unfold useStorage
  simp only [ensures_bind, ensures_get]
  split
  · next n hn =>
    split
    · simp only [ensures_bind, ensures_throw]
    · next agrees =>
      simp only [ensures_pure]
      apply steady n e.storages List.prefix_rfl (fun h => h)
      intro hp
      apply uses_of_prefix hp hn
      intro use hu first same
      by_cases empty : S.graph.memory.buffer t.storage = []
      · exact S.alike use hu t ht same empty
      · rw [first, Option.map_some, Option.getD_some] at agrees
        by_contra other
        exact agrees ⟨other, fun h => empty (List.length_eq_zero_iff.1 h)⟩
  · next hn =>
    simp only [ensures_bind, ensures_set, ensures_pure]
    apply steady _ _ (List.prefix_append _ _) (fun h => h.concat ht)
    intro hp
    apply uses_of_prefix hp
    · rw [List.findIdx?_append, hn]
      simp [List.findIdx?_cons]
    · intro use _ last _
      rw [List.getElem?_concat_length] at last
      cases last
      rfl

end Storages

section Tensors

variable {S : Scene} {N : Nat → Prop} {e : Encoder} {t : Tensor} {n : Nat} {storageClass : Text}

theorem ofStorageClass?_storageClass? {d : DType} (h : d.storageClass? = some storageClass) :
    DType.ofStorageClass? storageClass = some d := by
  cases d <;> cases h <;> decide +kernel

theorem isLine_storageClass {d : DType} (h : DType.ofStorageClass? storageClass = some d) :
    Instruction.IsLine storageClass := by
  have lines : ∀ row ∈ DType.storageClasses, Instruction.IsLine (Text.ofString row.1) := by
    decide
  simp only [DType.ofStorageClass?, DType.lookUp?, Option.map_eq_some_iff] at h
  obtain ⟨row, hrow, _⟩ := h
  have named : Text.ofString row.1 = storageClass := by
    simpa using List.find?_some hrow
  rw [← named]
  exact lines row (List.mem_of_find?_eq_some hrow)

theorem isLine_storageModule : Instruction.IsLine storageModule := by
  decide

theorem findGlobal_storageClass {d : DType} (h : DType.ofStorageClass? storageClass = some d) :
    findGlobal storageModule storageClass = .ok (.storageClass storageClass d) := by
  have other : Constructor.all.find? (fun c => c.module == storageModule && c.name == storageClass) =
      none := by
    have foreign (c : Constructor) : (c.module == storageModule) = false := by
      cases c <;> decide
    simp [foreign]
  unfold findGlobal
  rw [other, h]
  rfl

theorem writes_word (he : Orderly True e) {o : Identity} {text : Text}
    (temporary : ∀ n, o ≠ .temporary n) (node : ∀ id, o ≠ .node id)
    (stands : ∀ w v, S.Stands w o v ↔ v = .text text) :
    Writes S N e (saveText o text) (.exactly (.text text)) := by
  apply writes_saveText he
  · exact fun n hn => absurd hn (temporary n)
  · exact fun id hid => absurd hid (node id)
  · exact fun w => (stands w _).2 rfl
  · exact fun _ _ w v hv => (stands w v).1 hv

/-- What a reference to a storage is made of. -/
def storageItems (n : Nat) (t : Tensor) (storageClass : Text) (count : Nat) :
    List (Encoding Unit × Value) := [
  (saveText .storageWord storageWord, .text storageWord),
  (saveGlobal storageModule storageClass, .storageClass storageClass t.dtype),
  (saveText (.storageKey n) (Text.ofNat n), .text (Text.ofNat n)),
  (saveText .locationWord locationWord, .text locationWord),
  (saveInt count, .int count)]

theorem writes_storageItems (h : t.dtype.storageClass? = some storageClass) (count : Nat) :
    ∀ item ∈ storageItems n t storageClass count, ∀ e, Orderly True e →
      Writes S N e item.1 (.exactly item.2) := by
  have found := ofStorageClass?_storageClass? h
  simp only [storageItems, List.forall_mem_cons, List.not_mem_nil, false_imp_iff, implies_true,
    and_true]
  refine ⟨?_, ?_, ?_, ?_, ?_⟩ <;> intro e he
  · exact writes_word he nofun nofun fun _ _ => Iff.rfl
  · exact writes_saveGlobal he isLine_storageModule (isLine_storageClass found)
      (findGlobal_storageClass found)
  · exact writes_word he nofun nofun fun _ _ => Iff.rfl
  · exact writes_word he nofun nofun fun _ _ => Iff.rfl
  · exact writes_saveInt he _

theorem all_exactly {α : Type} {items : List α} {v : α → Value} {w : World} {h : Heap}
    {values : List Value} (hv : Image.all (fun item => .exactly (v item)) items w h values) :
    values = items.map v := by
  induction items generalizing values with
  | nil => exact hv
  | cons item items ih =>
    obtain ⟨_, rest, rfl, rfl, hrest⟩ := hv
    rw [ih hrest]
    rfl

theorem persistentRef_tuple (h : Heap) (d : DType) (key location : Text) (count birth : Nat) :
    Machine.persistentRef h (.tuple [.text storageWord, .storageClass storageClass d, .text key,
      .text location, .int count] birth) = .ok { key, dtype := d, count, location } := by
  have kind : (Machine.persistentKind (.text storageWord) != .text "storage") = false := by
    decide
  have natural : ¬ (count : Int) < 0 := by
    omega
  simp only [Machine.persistentRef, kind, Bool.false_eq_true, if_false, natural]

/-- What is written of a storage is read as a reference to it. -/
theorem persistentRef_storageItems {use : StorageUse} (h : Heap) (n birth : Nat)
    (storage : use.storage = t.storage) (dtype : use.dtype = t.dtype) :
    Machine.persistentRef h (.tuple ((storageItems n t storageClass
      ((S.graph.memory.buffer t.storage).length / t.dtype.size)).map Prod.snd) birth) =
      .ok (S.reference n use) := by
  have count : (((S.graph.memory.buffer t.storage).length / t.dtype.size : Nat) : Int) =
      (S.blob n use).count := by
    change _ = (use.count S.graph.memory : Int)
    rw [StorageUse.count, dtype, storage]
  simp only [storageItems, List.map_cons, List.map_nil, persistentRef_tuple, Scene.reference, dtype,
    ← count]

/-- The image of a tensor's storage. -/
def Image.storage (S : Scene) (t : Tensor) : Image :=
  fun w _ values => ∃ r : PersistentRef, values = [.persistent r] ∧ S.Refers r ∧ r.dtype = t.dtype ∧
    r.key = Text.ofNat (storageNumber S.uses t) ∧ w.registered (storageNumber S.uses t)

theorem writes_saveStorage (he : Orderly True e) (h : t.dtype.storageClass? = some storageClass)
    (ht : S.tensors t) :
    Writes S N e (saveStorage S.graph.memory t storageClass) (.storage S t) := by
  constructor
  unfold saveStorage
  rw [ensures_bind]
  apply (follows_useStorage he ht).post
  rintro n e₁ ⟨⟨orderly, within⟩, follows⟩
  let count := (S.graph.memory.buffer t.storage).length / t.dtype.size
  have tuple : Writes S N e₁ (saveTuple fresh ((storageItems n t storageClass count).map Prod.fst))
      (Image.tupled (.all (fun item => .exactly item.2) (storageItems n t storageClass count))) := by
    apply writes_saveFresh orderly
    · exact fun item _ => (Image.lasting_exactly item.2).stable
    · rintro item _ w h _ rfl
      rfl
    · exact writes_storageItems h count
  have known := Tracks.mono (Q := fun _ _ => Uses S t n) tuple (fun _ h => h)
    (fun _ _ _ => trivial) (fun _ _ _ _ _ h => h)
  have resolved := known.emit (i := .persistentId) (T := Pushed S (.storage S t)) ⟨rfl, rfl⟩
    trivial nofun ?_ ?_
  · apply resolved.ensures.post
    rintro _ e' ⟨⟨orderly', within'⟩, follows'⟩
    refine ⟨⟨orderly', within.trans within'⟩, follows.trans follows' ?_⟩
    rintro w m _ _ - ⟨⟨rfl, rfl⟩, uses⟩
    exact ⟨uses, fun _ _ h => h⟩
  · rintro - w m w' m' ⟨_, _, ⟨r, rfl, refers, _⟩, hs⟩ ref below on
    rw [hs] at on
    cases on
    exact refers
  · rintro e' w m w₁ m₁ p next ⟨rfl, use, hu, huse, dtype⟩
      ⟨grew, _, ⟨items, birth, rfl, hitems⟩, hs⟩ sim hp -
    obtain rfl := all_exactly hitems
    obtain ⟨blobs, hr, each, kept, here⟩ := sim.resolve hu
    have reference : Machine.persistentRef m₁.heap
        (.tuple ((storageItems (storageNumber S.uses t) t storageClass count).map Prod.snd) birth) =
        .ok (S.reference (storageNumber S.uses t) use) :=
      persistentRef_storageItems m₁.heap _ birth huse dtype
    change (Machine.resolvePersistent S.config next).Ensures _ _ _
    simp only [Machine.resolvePersistent, ensures_bind, Machine.ensures_pop, hs, Stack.above,
      List.reverse_singleton, List.singleton_append, ensures_get, reference, ensures_ofExcept_ok, hr,
      ensures_set, Machine.ensures_push]
    split
    · next full => exact .inl ⟨rfl, full⟩
    · intro trace
      refine ⟨w₁.withRegistered (storageNumber S.uses t),
        sim.register hu each kept here hp.le rfl rfl rfl, ?_, ?_⟩
      · refine ⟨grew.world.trans (World.extends_withRegistered _), grew.size, grew.kept, ?_⟩
        intro id o ho
        exact (grew.filled id o ho).imp_right fun hf =>
          ⟨hf.1, hf.2.mono (World.extends_withRegistered _) rfl⟩
      · refine ⟨[.persistent (S.reference (storageNumber S.uses t) use)],
          ⟨_, rfl, ⟨_, use, hu, rfl⟩, dtype, rfl, .inl rfl⟩, rfl⟩

/-- The image of a shape or of strides. -/
def Image.sizes (sizes : List Nat) : Image :=
  fun _ _ values => ∃ birth, values = [.tuple (sizes.map fun (n : Nat) => .int n) birth]

theorem writes_saveSizes (he : Orderly True e) (sizes : List Nat) :
    Writes S N e (saveSizes sizes) (.sizes sizes) := by
  have written : Writes S N e (saveSizes sizes)
      (Image.tupled (.all (fun n : Nat => .exactly (.int n)) sizes)) := by
    apply writes_saveFresh he
    · exact fun n _ => (Image.lasting_exactly _).stable
    · rintro n _ w h _ rfl
      rfl
    · exact fun n _ e he => writes_saveInt he n
  apply written.mono (fun _ h => h)
  rintro w h _ ⟨items, birth, rfl, hitems⟩
  exact ⟨birth, by rw [all_exactly hitems]⟩

/-- The image of a tensor's hooks, of which there are none. -/
def Image.hooks : Image :=
  fun _ h values => ∃ o, values = [.object o] ∧ h.get? o = some (.ordered {} {})

theorem writes_hooks (he : Orderly True e) :
    Writes S N e (orderedDict >>= fun _ => memoizeFresh) .hooks := by
  apply (tracks_orderedDict he).memoizeFresh
  rintro memo n absent w m w₁ m₁ - ⟨h, grew, placed, hh, hs⟩
  refine ⟨.object h.objects.size, m.stack.items, by rw [hs]; rfl, ?_⟩
  intro p p' trace sim hp
  refine ⟨w₁, sim.memoize absent trivial hp trace, ?_, [.object h.objects.size], ⟨_, rfl, ?_⟩, hs⟩
  · rw [hh]
    refine ⟨grew.world, ?_, ?_, ?_⟩
    · rw [Heap.size_allocate]
      exact Nat.le_succ_of_le grew.size
    · intro o ho hc
      rw [Heap.get?_allocate_of_lt (Nat.lt_of_lt_of_le ho grew.size)]
      exact grew.kept o ho hc
    · intro id o ho
      exact (grew.filled id o ho).imp_right fun hf =>
        ⟨hf.1, hf.2.mono (.refl _) (Heap.get?_allocate_of_lt hf.2.lt_size _)⟩
  · rw [hh]
    exact Heap.get?_allocate_self ..

theorem stable_hooks : Image.hooks.Stable S := by
  rintro w h w' h' _ ⟨o, rfl, ho⟩ grew
  exact ⟨o, rfl, (grew.kept o (Heap.get?_lt_size ho) not_false).trans ho⟩

theorem lasting_storage : (Image.storage S t).Lasting := by
  rintro w h w' h' _ ⟨r, rfl, refers, hd, hk, hr⟩ hw
  exact ⟨r, rfl, refers, hd, hk, hw.registered _ hr⟩

/-- What a tensor's constructor is called on. -/
def tensorItems (S : Scene) (t : Tensor) (storageClass : Text) : List (Encoding Unit × Image) := [
  (saveStorage S.graph.memory t storageClass, .storage S t),
  (saveInt t.offset, .exactly (.int t.offset)),
  (saveSizes t.shape, .sizes t.shape),
  (saveSizes t.stride, .sizes t.stride),
  (emit (.bool false), .exactly (.bool false)),
  ((do orderedDict; memoizeFresh), .hooks)]

theorem writes_tensorItems (h : t.dtype.storageClass? = some storageClass)
    (ht : S.tensors t) :
    ∀ item ∈ tensorItems S t storageClass, item.2.Stable S ∧
      (∀ w h values, item.2 w h values → values.length = 1) ∧
      ∀ e, Orderly True e → Writes S N e item.1 item.2 := by
  simp only [tensorItems, List.forall_mem_cons, List.not_mem_nil, false_imp_iff, implies_true,
    and_true]
  refine ⟨⟨lasting_storage.stable, ?_, ?_⟩, ⟨(Image.lasting_exactly _).stable, ?_, ?_⟩, ⟨?_, ?_, ?_⟩,
    ⟨?_, ?_, ?_⟩, ⟨(Image.lasting_exactly _).stable, ?_, ?_⟩, ⟨stable_hooks, ?_, ?_⟩⟩
  · rintro _ _ _ ⟨_, rfl, _⟩
    rfl
  · exact fun e he => writes_saveStorage he h ht
  · rintro _ _ _ rfl
    rfl
  · exact fun e he => writes_saveInt he _
  · exact fun _ _ _ _ _ hv _ => hv
  · rintro _ _ _ ⟨_, rfl⟩
    rfl
  · exact fun e he => writes_saveSizes he _
  · exact fun _ _ _ _ _ hv _ => hv
  · rintro _ _ _ ⟨_, rfl⟩
    rfl
  · exact fun e he => writes_saveSizes he _
  · rintro _ _ _ rfl
    rfl
  · exact fun e he => writes_constant (i := .bool false) he ⟨rfl, rfl⟩ trivial ⟨nofun, nofun⟩
      fun _ => rfl
  · rintro _ _ _ ⟨_, rfl, _⟩
    rfl
  · exact fun e he => writes_hooks he

theorem intSequence?_sizes (h : Heap) (sizes : List Nat) (birth : Nat) :
    h.intSequence? (.tuple (sizes.map fun (n : Nat) => .int n) birth) =
      some (sizes.map Int.ofNat) := by
  simp only [Heap.intSequence?]
  induction sizes with
  | nil => rfl
  | cons n sizes ih => simp_all

theorem call_rebuildTensor {h : Heap} {r : PersistentRef} {hooks shape stride : Nat} (birth : Nat)
    (hooked : h.get? hooks = some (.ordered {} {})) (hd : r.dtype = t.dtype)
    (hr : r.key = Text.ofNat n) :
    Constructor.rebuildTensorV2.call h [.persistent r, .int t.offset,
      .tuple (t.shape.map fun (n : Nat) => .int n) shape,
      .tuple (t.stride.map fun (n : Nat) => .int n) stride, .bool false, .object hooks] birth =
      .ok (.tensor (viewOf t n), h) := by
  have unhooked : h.isTrue (.object hooks) = false := by
    simp [Heap.isTrue, hooked]
  have plain : h.isTrue .none = false := rfl
  simp [Constructor.call, Constructor.buildTensor, unhooked, plain, Constructor.tensorRef,
    Heap.intSequence, intSequence?_sizes, bind, Except.bind, pure, Except.pure, hd, hr, viewOf]

theorem writes_saveTensor {id : Nat} (he : Orderly True e) (hg : S.graph.node id = .tensor t)
    (ht : S.tensors t) (hN : N id) (absent : .node id ∉ storesOf e.history) :
    Writes S N e (saveTensor S.graph.memory (.node id) t) (.showing S id) := by
  unfold saveTensor
  split
  · constructor
    rw [ensures_throw]
    trivial
  · next storageClass h =>
    have items := writes_tensorItems (N := fun _ => False) h ht
    have arguments {e' : Encoder} (he' : Orderly True e') : Writes S (fun _ => False) e'
        (saveTuple fresh ((tensorItems S t storageClass).map Prod.fst))
        (Image.tupled (.all Prod.snd (tensorItems S t storageClass))) :=
      writes_saveFresh he' (fun item hi => (items item hi).1) (fun item hi => (items item hi).2.1)
        fun item hi => (items item hi).2.2
    have called := ((writes_constructor he .rebuildTensorV2).andThen (M := fun _ => False)
      (fun _ h => h) (Image.lasting_exactly _).stable fun e' he' _ => arguments he').emit
      (i := .reduce) (T := Pushed S (.showing S id)) ⟨rfl, rfl⟩ trivial nofun nofun ?_
    · have stored := called.memoize (M := N) (T := Pushed S (.showing S id)) (fun _ => False.elim)
        absent not_false hN ?_
      · rw [bind_assoc, bind_assoc] at stored
        exact stored
      · intro memo free
        apply stored_pushed free
        rintro w _ _ ⟨v, rfl, hv⟩
        exact ⟨v, rfl, hv⟩
    · rintro e' w m w₁ m₁ p next - ⟨grew, _, ⟨_, _, rfl, rfl, ⟨values, birth, rfl, hvalues⟩⟩, hs⟩ sim hp -
      obtain ⟨_, _, rfl, ⟨r, rfl, -, hd, hk, hr⟩, _, _, rfl, rfl, _, _, rfl, ⟨shape, rfl⟩, _, _, rfl,
        ⟨stride, rfl⟩, _, _, rfl, rfl, _, _, rfl, ⟨hooks, rfl, hooked⟩, rfl⟩ := hvalues
      refine Machine.ensures_reduce (by rw [hs]; rfl)
        (call_rebuildTensor next.position hooked hd hk) ?_
      intro trace
      refine ⟨w₁, sim.at hp.le rfl le_rfl rfl, grew, [.tensor _], ⟨_, rfl, .tensor hg hr⟩, ?_⟩
      rw [hs]
      rfl

end Tensors

end Checkpoint.Pickle
