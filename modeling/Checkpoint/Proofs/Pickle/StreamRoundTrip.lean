import Checkpoint.Proofs.Pickle.ObjectRoundTrip

/-! Loading the stream of a graph gives a value that shows the graph, unless a limit of the machine
is reached. -/

namespace Checkpoint.Pickle

open Archive Effect Encoder

/-- A machine has ended with a value that is the image of an object.  Containers are objects on the
heap that are filled, no two of them the same; tuples with items have one birth each; storages are
registered as they were written. -/
structure Restored (g : Graph) (uses : List StorageUse) (top : Nat) (v : Value) (w : World)
    (m : Machine) : Prop where
  shows : Shows g uses w top v
  filled : ∀ id o, w.place id = some o → Filled g uses w m.heap id o
  apart : ∀ id id' o, w.place id = some o → w.place id' = some o → id = id'
  once : ∀ birth birth' id, w.origin birth = some id → w.origin birth' = some id →
    (g.node id).isFilledTuple = true → birth = birth'
  registered : ∀ n, w.registered n → ∃ use, uses[n]? = some use ∧ use.key = Text.ofNat n ∧
    m.arena.blobs.get? use.key = some (use.blob g.memory)

/-- Whether a tensor is in an object. -/
def Graph.TensorIn (g : Graph) (top : Nat) (t : Tensor) : Prop :=
  ∃ id, g.Reaches top id ∧ g.node id = .tensor t

namespace Restored

variable {g : Graph} {uses : List StorageUse} {top id item : Nat} {v : Value} {w : World}
  {m : Machine}

theorem exists_use (h : Restored g uses top v w m) {t : Tensor}
    (hr : w.registered (storageNumber uses t)) : ∃ use ∈ uses,
      use.key = Text.ofNat (storageNumber uses t) ∧ use.storage = t.storage ∧
      m.arena.blobs.get? use.key = some (use.blob g.memory) := by
  obtain ⟨use, hn, key, blob⟩ := h.registered _ hr
  obtain ⟨hlt, rfl⟩ := List.getElem?_eq_some_iff.1 hn
  refine ⟨_, List.getElem_mem hlt, key, ?_, blob⟩
  exact eq_of_beq (List.findIdx_getElem (p := fun use : StorageUse => use.storage == t.storage))

theorem tensor (h : Restored g uses top v w m) {t : Tensor} {u : Value} (hu : Shows g uses w id u)
    (hg : g.node id = .tensor t) : ∃ use ∈ uses, use.storage = t.storage ∧ u = .tensor {
      dtype := t.dtype
      shape := t.shape.map Int.ofNat
      stride := t.stride.map Int.ofNat
      storageKey := use.key
      offset := t.offset
      requiresGrad := false } := by
  cases hu with
  | tensor hg' hr =>
    cases hg.symm.trans hg'
    obtain ⟨use, hn, key, storage, -⟩ := h.exists_use hr
    exact ⟨use, hn, storage, by rw [key]; rfl⟩
  | none hg' | bool hg' | int hg' | float hg' | text hg' | tuple hg' | storageClass hg' =>
    cases hg.symm.trans hg'
  | object hg' => simp only [hg, Node.isContainer, Bool.false_eq_true] at hg'

theorem shows_of_holds (h : Restored g uses top v w m) {u : Value} (hu : Shows g uses w id u)
    (hh : g.Holds id item) : ∃ u, Shows g uses w item u := by
  have among {entries : List (Nat × Nat)} {items : List (Value × Value)}
      (shows : ShowsEntries g uses w entries items)
      (hi : ∃ entry ∈ entries, item = entry.1 ∨ item = entry.2) : ∃ u, Shows g uses w item u := by
    obtain ⟨entry, he, hi⟩ := hi
    obtain ⟨_, _, hk, hv⟩ := exists_of_forall₂ shows he
    obtain rfl | rfl := hi
    · exact ⟨_, hk⟩
    · exact ⟨_, hv⟩
  cases hu with
  | tuple hg _ hl each =>
    simp only [Graph.Holds, hg] at hh
    obtain ⟨u, _, hu⟩ := exists_of_forall₂ (List.forall₂_iff_zip.2 ⟨hl, fun hp => each _ hp⟩) hh
    exact ⟨u, hu⟩
  | object hg hp =>
    have filled := h.filled _ _ hp
    unfold Filled at filled
    split at filled
    · next hg =>
      obtain ⟨values, _, shows⟩ := filled
      simp only [Graph.Holds, hg] at hh
      obtain ⟨u, _, hu⟩ := exists_of_forall₂ shows hh
      exact ⟨u, hu⟩
    · next hg =>
      obtain ⟨table, _, shows⟩ := filled
      simp only [Graph.Holds, hg] at hh
      exact among shows hh
    · next hg =>
      obtain ⟨table, fields, _, shows, attributes⟩ := filled
      simp only [Graph.Holds, hg] at hh
      obtain hi | hi := hh
      · exact among shows hi
      · obtain ⟨a, ha, rfl⟩ := List.mem_map.1 hi
        obtain ⟨_, _, _, hv⟩ := exists_of_forall₂ attributes ha
        exact ⟨_, hv⟩
    · exact filled.elim
  | none hg | bool hg | int hg | float hg | text hg | tensor hg | storageClass hg =>
    simp only [Graph.Holds, hg] at hh

theorem shows_of_reaches (h : Restored g uses top v w m) (hr : g.Reaches top id) :
    ∃ u, Shows g uses w id u := by
  induction hr with
  | refl => exact ⟨v, h.shows⟩
  | tail _ hh ih =>
    obtain ⟨u, hu⟩ := ih
    exact h.shows_of_holds hu hh

end Restored

section Streams

variable {S : Scene} {N : Nat → Prop} {e : Encoder} {config : Config} {top : Nat}

theorem writes_proto (he : Orderly True e) :
    Writes S N e (emit (.proto Graph.protocol)) (.all (.showing S) []) := by
  apply tracks_emit (i := .proto Graph.protocol) he ⟨rfl, rfl⟩ trivial ⟨nofun, nofun⟩
  rintro e' w m _ _ p next - ⟨rfl, rfl⟩ sim hp -
  have known : ¬ (Graph.protocol < 2 || 5 < Graph.protocol) = true := by
    decide
  simp only [Machine.execute, if_neg known, ensures_modify]
  intro trace
  exact ⟨_, sim.at hp.le rfl le_rfl rfl, .refl _ _, [], rfl, rfl⟩

theorem writes_start (config : Config) (shown : S.Shown top) :
    Writes S (S.graph.Reaches top) {} (emit (.proto Graph.protocol) >>= fun _ =>
      save config S.graph S.graph.depthLimit top) (.showing S top) := by
  apply ((writes_proto orderly_start).andThen (fun _ h => h)
    (Image.lasting_all nofun).stable fun e' he' _ => writes_save shown .refl _ _ he').mono
    (fun _ h => h)
  rintro w h _ ⟨_, b, rfl, rfl, hb⟩
  exact hb

theorem sim_start {arena : Arena} {p : Nat} (ha : arena.reader = S.reader) (hb : arena.blobs = {})
    (hl : arena.loaded = {}) : Sim S {} {} p { arena } where
  numbers _ _ hn := nomatch hn
  stands _ _ hn := nomatch hn
  clock := Nat.zero_le _
  births _ _ hb := nomatch hb
  stored _ _ hb := nomatch hb
  once _ _ _ hb := nomatch hb
  placed _ _ ho := nomatch ho
  apart _ _ _ ho := nomatch ho
  reader := ha
  unread := hl
  blobs _ _ h := by
    rw [hb] at h
    cases h
  registered _ h := h.elim

theorem ensures_run_stop {m : Machine} {c next : Cursor} {v : Value}
    {Q : Value × Cursor → Machine → Prop} {E : Error → Machine → Prop}
    (hs : m.stack = ({} : Stack).above [v]) (hc : c.Spells Instruction.stop.encode next)
    (hq : Q (v, next) { m with stack := {} }) : (Machine.run S.config c).Ensures m Q E := by
  rw [Machine.run_of_stop (Instruction.read_encode (i := .stop) trivial hc)]
  simp only [Machine.result, ensures_bind, Machine.ensures_pop, hs, Stack.above,
    List.reverse_singleton, List.singleton_append, ensures_get, List.isEmpty_nil, Bool.and_self,
    if_true, ensures_pure]
  exact hq

/-- Whether all references of a run are to storages of a stream, as they are used there. -/
def Referring (memory : Memory) (uses : List StorageUse) (limits : Config) (s : Cursor × Machine) :
    Prop :=
  ∀ ref, Machine.Makes limits s ref → ∃ use ∈ uses, ref = use.reference memory

/-- A run on the way to its end makes no other references. -/
theorem referring_of_via {c c' next : Cursor} {m m' : Machine}
    (via : Machine.Via S.config S.Refers (c, m) (c', m'))
    (last : c'.Spells Instruction.stop.encode next) (entered : Entered S.tensors S.uses) :
    Referring S.graph.memory S.uses S.config (c, m) := by
  have stop : Instruction.read c' = .ok (.stop, next) :=
    Instruction.read_encode (i := .stop) trivial last
  rintro ref ⟨t, ht, hr⟩
  obtain known | behind := via.refers ht
  · obtain ⟨n, use, hn, rfl⟩ := known ref hr
    refine ⟨use, List.mem_of_getElem? hn, ?_⟩
    rw [StorageUse.reference, entered.keys n use hn]
    rfl
  · have ended : t = (c', m') := by
      obtain rfl | ⟨_, moves, _⟩ := Relation.ReflTransGen.cases_head behind
      · rfl
      · rw [Machine.moves_iff, Machine.advance?, stop] at moves
        cases moves
    rw [ended, Machine.reference?_eq_none (s := (c', m')) stop Instruction.noConfusion] at hr
    cases hr

/-- What has been written from an empty memo is read back. -/
theorem ensures_load (shown : S.Shown top)
    (hs : (S.graph.stream config top).perform {} = (.ok (), e)) (hu : S.uses = e.storages)
    {arena : Arena} (ha : arena.reader = S.reader) (hb : arena.blobs = {}) (hl : arena.loaded = {})
    {c next : Cursor} (hc : c.Spells (bytesOf e.history) next) :
    (Machine.run S.config c).Ensures { arena } (fun (v, c') m => c' = next ∧
      (m.arena.reader = S.reader ∧ m.arena.loaded = {}) ∧
      (∃ w, Restored S.graph S.uses top v w m) ∧
      Referring S.graph.memory S.uses S.config (c, { arena }))
      fun error m' => Machine.IsLimit S.config error m' := by
  unfold Graph.stream at hs
  rw [← bind_assoc, perform_bind_eq_ok] at hs
  obtain ⟨_, e₁, hstart, hstop⟩ := hs
  obtain ⟨_, written, hh, _, entered, run⟩ := (writes_start config shown).ensures.of_ok hstart
  cases hstop
  have entered : Entered S.tensors S.uses := by
    rw [hu]
    exact entered ⟨nofun, nofun⟩
  have history : ({ e₁ with output := { instruction := .stop } :: e₁.output } : Encoder).history =
      written ++ [{ instruction := .stop }] := by
    simpa [history] using hh
  rw [history, bytesOf_append, Cursor.spells_append] at hc
  obtain ⟨mid, first, second⟩ := hc
  have sim : Sim S {} {} c.position { arena } := sim_start ha hb hl
  obtain ⟨c₁, m, via, rfl, w, sim', grew, values, ⟨v, rfl, hv⟩, hstack⟩ | ⟨error, m, hrun, limit⟩ :=
    run (by rw [hu]) {} c mid { arena } sim trivial first
  · have last : c₁.Spells Instruction.stop.encode next := by simpa [bytesOf] using second
    rw [ensures_congr via.run_eq]
    apply ensures_run_stop hstack last
    refine ⟨rfl, ⟨sim'.reader, sim'.unread⟩, ⟨w, hv, ?_, sim'.apart, sim'.once, ?_⟩,
      referring_of_via via last entered⟩
    -- Nothing had a place at the start, so all that has one now was filled on the way.
    · intro id o ho
      obtain ho | ⟨_, hf⟩ := grew.filled id o ho
      · cases ho
      · exact hf
    · intro n hn
      obtain ⟨use, hn, hb⟩ := sim'.registered n hn
      have key := entered.keys n use hn
      refine ⟨use, hn, key, ?_⟩
      rw [key, hb, StorageUse.blob, key]
      rfl
  · exact ensures_of_error hrun limit

theorem entered_of_stream {g : Graph} (can : g.Restorable top)
    (hs : (g.stream config top).perform {} = (.ok (), e)) : Entered (g.TensorIn top) e.storages := by
  let S : Scene := {
    config
    graph := g
    tensors := g.TensorIn top
    uses := []
    reader := { members := {}, root := "", version := 0, byteOrder := .little }
    alike := nofun
    present := nofun }
  have shown : S.Shown top := ⟨can, fun id t hr hg => ⟨id, hr, hg⟩⟩
  unfold Graph.stream at hs
  rw [← bind_assoc, perform_bind_eq_ok] at hs
  obtain ⟨_, e₁, hstart, hstop⟩ := hs
  obtain ⟨_, _, _, _, entered, _⟩ := (writes_start (S := S) config shown).ensures.of_ok hstart
  cases hstop
  exact entered ⟨nofun, nofun⟩

/-- Running the stream of an object, over an archive with its storages, gives an image of the object,
unless a limit is reached. -/
theorem ensures_run_stream {g : Graph} {reader : Reader} (can : g.Restorable top)
    (alike : ∀ t t', g.TensorIn top t → g.TensorIn top t' → t.storage = t'.storage →
      g.memory.buffer t'.storage = [] → t.dtype = t'.dtype)
    (hs : (g.stream config top).perform {} = (.ok (), e))
    (present : ∀ use ∈ e.storages,
      reader.storageSize use.key = .ok (use.count g.memory * use.dtype.size))
    (limits : Config) {c next : Cursor} (hc : c.Spells (bytesOf e.history) next) :
    (Machine.run limits c).Ensures { arena := .ofReader reader } (fun (v, c') m => c' = next ∧
      (m.arena.reader = reader ∧ m.arena.loaded = {}) ∧ (∃ w, Restored g e.storages top v w m) ∧
      Referring g.memory e.storages limits (c, { arena := .ofReader reader }))
      fun error m' => Machine.IsLimit limits error m' := by
  have entered := entered_of_stream can hs
  let S : Scene := {
    config := limits
    graph := g
    tensors := g.TensorIn top
    uses := e.storages
    reader
    alike := by
      intro use hu t ht same empty
      obtain ⟨t', ht', storage, dtype⟩ := entered.used use hu
      exact dtype.trans (alike t' t ht' ht (storage.symm.trans same) empty)
    present := by
      intro n use hn
      rw [← entered.keys n use hn]
      exact present use (List.mem_of_getElem? hn) }
  have shown : S.Shown top := ⟨can, fun id t hr hg => ⟨id, hr, hg⟩⟩
  exact ensures_load (S := S) shown hs rfl rfl rfl rfl hc

end Streams

end Checkpoint.Pickle
