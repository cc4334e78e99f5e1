import Checkpoint.Proofs.Pickle.Growth
import Checkpoint.Proofs.Pickle.Plain
import Checkpoint.Proofs.Pickle.StreamRoundTrip

/-! Round trip of object graphs: what is loaded from the stream of a mapping is an image of it. -/

namespace Checkpoint.Pickle

open Archive Effect

namespace Graph

variable {config limits : Config} {g g' : Graph} {id top : Nat} {d : Dump} {reader : Reader}

theorem spells_start (bytes : Bytes) : ∃ next : Cursor, next.rest = [] ∧
    (Cursor.start bytes).Spells bytes next :=
  ⟨(Cursor.start bytes).behind [] (Nat.zero_le _), rfl, ⟨(List.append_nil _).symm, rfl⟩⟩

theorem bytes_eq_bytesOf (d : Dump) : d.bytes = bytesOf d.written := by
  simp only [Dump.bytes, Dump.instructions, bytesOf, List.flatMap_map]

/-- A mapping of which nothing but its empty storages is viewed under several types is loaded from
its stream as it is: every object in it is shown by a value, equal scalars by equal ones, entries
and attributes in order, what is one container or tuple by one, and tensors by views of the storages
that they have. -/
theorem load_dump (ha : g.asOrdered id = .ok (top, g')) (hd : g.dump config id = .ok d)
    (can : g'.Restorable top)
    (alike : ∀ t t', g'.TensorIn top t → g'.TensorIn top t' → t.storage = t'.storage →
      g'.memory.buffer t'.storage = [] → t.dtype = t'.dtype)
    (present : ∀ use ∈ d.storages,
      reader.storageSize use.key = .ok (use.count g'.memory * use.dtype.size))
    (depth : d.bytes.length < limits.maxStackDepth)
    (memo : (d.bytes.length : Int) < limits.maxMemoSize) :
    ∃ v c m w, Machine.load limits (.ofReader reader) d.bytes = (.ok (v, c), m) ∧ c.rest = [] ∧
      Restored g' d.storages top v w m ∧
      (∀ id, g'.Reaches top id → ∃ u, Shows g' d.storages w id u) ∧
      ∀ id t u, Shows g' d.storages w id u → g'.node id = .tensor t →
        ∃ use ∈ d.storages, use.storage = t.storage ∧ u = .tensor {
          dtype := t.dtype
          shape := t.shape.map Int.ofNat
          stride := t.stride.map Int.ofNat
          storageKey := use.key
          offset := t.offset
          requiresGrad := false } := by
  obtain ⟨_, _, e, ha', hs, rfl⟩ := dump_eq_ok.1 hd
  cases ha.symm.trans ha'
  obtain ⟨next, last, spells⟩ := spells_start (bytesOf e.history)
  have run := ensures_run_stream can alike hs present limits spells
  rw [bytes_eq_bytesOf] at depth memo ⊢
  unfold Machine.load
  cases hr : (Machine.run limits (Cursor.start (bytesOf e.history))).perform
      { arena := .ofReader reader } with
  | mk outcome m =>
    cases outcome with
    | error error =>
      exact absurd (run.of_error hr)
        (Machine.not_isLimit_of_run (perform_eq_error.1 hr) depth memo)
    | ok result =>
      obtain ⟨rfl, -, ⟨w, restored⟩, -⟩ := run.of_ok hr
      exact ⟨result.1, result.2, m, w, rfl, last, restored, fun _ hr => restored.shows_of_reaches hr,
        fun _ _ _ hu hg => restored.tensor hu hg⟩

end Graph

/-- An archive with storages of the given sizes. -/
def storagesOf (sizes : List Nat) : Reader where
  members := ⟨sizes.zipIdx.map fun (size, n) =>
    let name := "archive/" ++ storageRecord (Text.ofNat n)
    (name, { name, fullName := name, flags := 0, method := 0, crc := 0, storedSize := size, size,
             headerOffset := 0 }, (size : Int))⟩
  root := "archive/"
  version := 3
  byteOrder := .little

/-- A pair under two names, of a tensor that has a name of its own and of a list that holds itself;
an attribute leads back to the mapping. -/
def entangled : Graph where
  nodes := #[.ordered [(1, 2), (3, 4), (5, 2)] [("_metadata", 6)], .text "pair", .tuple [4, 7],
    .text "weight", .tensor { dtype := .float32, shape := [1], stride := [1], offset := 0, storage := 0 },
    .text "again", .dict [(1, 0)], .list [7]]
  memory := ⟨[[0, 0, 128, 63]]⟩

namespace Graph

theorem entangled_tensor {id : Nat} {t : Tensor} (h : entangled.node id = .tensor t) :
    t.dtype = .float32 := by
  match id, h with
  | 4, rfl => rfl
  | n + 8, h => simp [node, entangled] at h

theorem entangled_tuple {id : Nat} {items : List Nat} (h : entangled.node id = .tuple items) :
    id = 2 := by
  match id, h with
  | 2, _ => rfl
  | n + 8, h => simp [node, entangled] at h

theorem entangled_dict {id : Nat} {entries : List (Nat × Nat)}
    (h : entangled.node id = .dict entries) : entries = [(1, 0)] := by
  match id, h with
  | 6, rfl => rfl
  | n + 8, h => simp [node, entangled] at h

theorem entangled_ordered {id : Nat} {entries : List (Nat × Nat)} {attributes : List (Text × Nat)}
    (h : entangled.node id = .ordered entries attributes) :
    entries = [(1, 2), (3, 4), (5, 2)] ∧ attributes = [(("_metadata" : Text), 6)] := by
  match id, h with
  | 0, rfl => exact ⟨rfl, rfl⟩
  | n + 8, h => simp [node, entangled] at h

theorem entangled_storageClass {id : Nat} {name : Text} :
    ¬ entangled.node id = .storageClass name := by
  intro h
  match id, h with
  | n + 8, h => simp [node, entangled] at h

theorem entangled_restorable : entangled.Restorable 0 := by
  have names : entangled.KeysApart [(1, 2), (3, 4), (5, 2)] := by
    apply keysApart_of_texts
    · simp only [List.forall_mem_cons]
      exact ⟨⟨by decide +kernel, _, rfl⟩, ⟨by decide +kernel, _, rfl⟩, ⟨by decide +kernel, _, rfl⟩,
        List.forall_mem_nil _⟩
    · decide +kernel
  have metadata : entangled.KeysApart [(1, 0)] := by
    apply keysApart_of_texts
    · simp only [List.forall_mem_cons]
      exact ⟨⟨by decide +kernel, _, rfl⟩, List.forall_mem_nil _⟩
    · decide +kernel
  have below {item id : Nat} (h : entangled.Reaches item id) (hi : item ∈ [4, 7]) : id ∈ [4, 7] := by
    induction h with
    | refl => exact hi
    | tail _ hh ih =>
      obtain rfl | rfl := List.mem_pair.1 ih
      · exact hh.elim
      · exact List.mem_cons_of_mem _ hh
  refine ⟨?_, ?_, ?_, ?_, ?_⟩
  · intro id items _ hid cycle
    cases entangled_tuple hid
    obtain ⟨item, hh, hr⟩ := Relation.TransGen.head'_iff.1 cycle
    have inside := below hr hh
    revert inside
    decide
  · intro id entries _ hid
    exact entangled_dict hid ▸ metadata
  · intro id entries attributes _ hid
    exact (entangled_ordered hid).1 ▸ names
  · intro id entries attributes _ hid
    rw [(entangled_ordered hid).2]
    decide
  · intro id name _ hid
    exact (entangled_storageClass hid).elim

theorem load_dump_entangled : ∃ d, entangled.dump {} 0 = .ok d ∧
    ∃ v c m w, Machine.load {} (.ofReader (storagesOf [4])) d.bytes = (.ok (v, c), m) ∧ c.rest = [] ∧
      Restored entangled d.storages 0 v w m ∧
      (∀ id, entangled.Reaches 0 id → ∃ u, Shows entangled d.storages w id u) ∧
      ∀ id t u, Shows entangled d.storages w id u → entangled.node id = .tensor t →
        ∃ use ∈ d.storages, use.storage = t.storage ∧ u = .tensor {
          dtype := t.dtype
          shape := t.shape.map Int.ofNat
          stride := t.stride.map Int.ofNat
          storageKey := use.key
          offset := t.offset
          requiresGrad := false } := by
  have facts : (entangled.dump {} 0).toOption.map (fun d => (d.bytes.length, d.storages)) =
      some (236, [{ key := "0", storage := 0, dtype := .float32 }]) := by
    decide +kernel
  obtain ⟨d, hd, told⟩ := exists_ok_of_map facts
  obtain ⟨length, storages⟩ := Prod.mk.inj told
  refine ⟨d, hd, load_dump rfl hd entangled_restorable ?_ ?_ ?_ ?_⟩
  · rintro t t' ⟨id, -, ht⟩ ⟨id', -, ht'⟩ - -
    rw [entangled_tensor ht, entangled_tensor ht']
  · rw [storages]
    decide +kernel
  · rw [length]
    decide
  · rw [length]
    decide

end Graph

/-- Two tensors of different types over one storage, which is empty. -/
def emptyTwice : Graph where
  nodes := #[.ordered [(1, 2), (3, 4)] [], .text "a",
    .tensor { dtype := .float32, shape := [0], stride := [1], offset := 0, storage := 0 }, .text "b",
    .tensor { dtype := .int32, shape := [0], stride := [1], offset := 0, storage := 0 }]
  memory := ⟨[[]]⟩

/-- A mapping whose keys are two tuples of a tensor each, and the tensors are views alike. -/
def twinKeys : Graph where
  nodes := #[.ordered [(1, 2)] [], .text "a", .dict [(3, 5), (4, 5)], .tuple [6], .tuple [7], .none,
    .tensor { dtype := .float32, shape := [1], stride := [1], offset := 0, storage := 0 },
    .tensor { dtype := .float32, shape := [1], stride := [1], offset := 0, storage := 0 }]
  memory := ⟨[[0, 0, 128, 63]]⟩

namespace Graph

theorem twinKeys_grounded : twinKeys.TuplesGrounded 0 := by
  intro id items _ hid cycle
  obtain ⟨item, hh, hr⟩ := Relation.TransGen.head'_iff.1 cycle
  have leaf {item : Nat} (hi : item ∈ [6, 7]) (hr : twinKeys.Reaches item id) : id = item := by
    obtain rfl | ⟨next, hh, _⟩ := Relation.ReflTransGen.cases_head hr
    · rfl
    · obtain rfl | rfl := List.mem_pair.1 hi <;> exact hh.elim
  match id, hid with
  | 3, _ | 4, _ =>
    obtain rfl := List.mem_singleton.1 hh
    cases leaf (by decide) hr
  | n + 8, hid => simp [node, twinKeys] at hid

/-- Whether an object is a mapping with two entries. -/
def isPair : Object → Bool
  | .dict table => table.entries.length == 2
  | _ => false

/-- What an image of such keys needs: a mapping on the heap that has two entries. -/
theorem exists_pair_of_restored {uses : List StorageUse} {v : Value} {w : World} {m : Machine}
    (h : Restored twinKeys uses 0 v w m) :
    ∃ o pair, m.heap.get? o = some pair ∧ isPair pair = true := by
  have reached : twinKeys.Reaches 0 2 := .single (.inl ⟨(1, 2), List.mem_cons_self, .inr rfl⟩)
  obtain ⟨u, hu⟩ := h.shows_of_reaches reached
  cases hu with
  | object _ hp =>
    obtain ⟨table, ho, shows⟩ := h.filled _ _ hp
    exact ⟨_, _, ho, beq_of_eq shows.length_eq.symm⟩
  | none hg | bool hg | int hg | float hg | text hg | tuple hg | tensor hg | storageClass hg =>
    cases hg

/-- Two mappings that are written and not loaded as they are: the one is refused, of the other one
entry is lost. -/
theorem load_dump_unlike :
    (∃ d, emptyTwice.dump {} 0 = .ok d ∧
      (∀ use ∈ d.storages, (storagesOf [0]).storageSize use.key =
        .ok (use.count emptyTwice.memory * use.dtype.size)) ∧
      ¬ ∃ v c m w, Machine.load {} (.ofReader (storagesOf [0])) d.bytes = (.ok (v, c), m) ∧
        Restored emptyTwice d.storages 0 v w m) ∧
    twinKeys.TuplesGrounded 0 ∧ ∃ d, twinKeys.dump {} 0 = .ok d ∧
      (∀ use ∈ d.storages, (storagesOf [4]).storageSize use.key =
        .ok (use.count twinKeys.memory * use.dtype.size)) ∧
      ¬ ∃ v c m w, Machine.load {} (.ofReader (storagesOf [4])) d.bytes = (.ok (v, c), m) ∧
        Restored twinKeys d.storages 0 v w m := by
  constructor
  · have facts : (emptyTwice.dump {} 0).toOption.map (fun d => (d.storages,
        (Machine.load {} (.ofReader (storagesOf [0])) d.bytes).1.toOption.isSome)) =
        some ([{ key := "0", storage := 0, dtype := .float32 }], false) := by
      decide +kernel
    obtain ⟨d, hd, told⟩ := exists_ok_of_map facts
    obtain ⟨storages, refused⟩ := Prod.mk.inj told
    refine ⟨d, hd, ?_, ?_⟩
    · rw [storages]
      decide +kernel
    · rintro ⟨v, c, m, w, loaded, _⟩
      rw [loaded] at refused
      cases refused
  · refine ⟨twinKeys_grounded, ?_⟩
    have facts : (twinKeys.dump {} 0).toOption.map (fun d => (d.storages,
        (Machine.load {} (.ofReader (storagesOf [4])) d.bytes).2.heap.objects.toList.any isPair)) =
        some ([{ key := "0", storage := 0, dtype := .float32 }], false) := by
      decide +kernel
    obtain ⟨d, hd, told⟩ := exists_ok_of_map facts
    obtain ⟨storages, none⟩ := Prod.mk.inj told
    refine ⟨d, hd, ?_, ?_⟩
    · rw [storages]
      decide +kernel
    · rintro ⟨v, c, m, w, loaded, restored⟩
      obtain ⟨o, pair, ho, two⟩ := exists_pair_of_restored restored
      rw [loaded, List.any_eq_false] at none
      exact none _ (Array.mem_toList_iff.2 (Array.mem_of_getElem? ho)) two

end Graph

end Checkpoint.Pickle
