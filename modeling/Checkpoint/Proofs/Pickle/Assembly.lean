import Checkpoint.Proofs.Pickle.Container
import Checkpoint.Proofs.Pickle.Replay

/-! How tuples and containers are put together again: what their items leave on the stack goes into
a value or an object. -/

namespace Checkpoint.Pickle

open Archive Effect Encoder

namespace Stack

/-- A stack that is ready for the items of a tuple. -/
def opened (n : Nat) (s : Stack) : Stack := if 3 < n then s.marked else s

end Stack

namespace Machine

variable {config : Config} {c : Cursor} {m : Machine} {E : Error → Machine → Prop}
  {Q : Unit → Machine → Prop} {s : Stack} {values : List Value}

theorem ensures_tupleInstruction (some : values ≠ [])
    (hs : m.stack = (s.opened values.length).above values) :
    (execute config c (tupleInstruction values.length)).Ensures m Q E ↔
      if config.maxStackDepth ≤ s.depth then E (depthRefusal config) { m with stack := s }
      else Q () { m with stack := s.above [.tuple values c.position] } := by
  match values, some, hs with
  | [a], _, hs | [a, b], _, hs | [a, b, d], _, hs =>
    change m.stack = s.above _ at hs
    simp [tupleInstruction, execute, hs, Stack.above]
  | a :: b :: d :: f :: rest, _, hs =>
    have : s.opened (a :: b :: d :: f :: rest).length = s.marked := if_pos (by simp)
    rw [this] at hs
    change (execute config c .tuple).Ensures m Q E ↔ _
    simp [execute, hs, Stack.above, Stack.marked]

end Machine

section Tuples

variable {S : Scene} {N M : Nat → Prop} {e : Encoder} {α : Type} {items : List α}
  {x : α → Encoding Unit} {K : α → Image} {J : Image}

theorem Image.length_all (single : ∀ item ∈ items, ∀ w h values, K item w h values →
    values.length = 1) {w : World} {h : Heap} {values : List Value}
    (hv : Image.all K items w h values) : values.length = items.length := by
  induction items generalizing values with
  | nil =>
    obtain rfl := hv
    rfl
  | cons item items ih =>
    obtain ⟨a, b, rfl, ha, hb⟩ := hv
    rw [List.length_append, single item List.mem_cons_self w h a ha,
      ih (fun i hi => single i (List.mem_cons_of_mem _ hi)) hb, List.length_cons, Nat.add_comm]

theorem tracks_mark (he : Orderly True e) : Tracks S N e (emit .mark) (fun _ _ => True)
    (PushedOn S Stack.marked (.all K [])) := by
  apply tracks_emit (i := .mark) he ⟨rfl, rfl⟩ trivial ⟨nofun, nofun⟩
  rintro e' w m _ _ p next - ⟨rfl, rfl⟩ sim hp -
  change (Machine.mark S.config).Ensures _ _ _
  rw [Machine.ensures_mark]
  split
  · next full => exact .inl ⟨rfl, full⟩
  · intro trace
    exact ⟨_, sim.at hp.le rfl le_rfl rfl, .refl _ _, [], rfl, rfl⟩

theorem writes_marked (he : Orderly True e) (hK : ∀ item ∈ items, (K item).Stable S)
    (hx : ∀ item ∈ items, ∀ e, Orderly True e → Writes S N e (x item) (K item)) :
    Tracks S N e (emit .mark >>= fun _ => items.forM x) (fun _ _ => True)
      (PushedOn S Stack.marked (.all K items)) := by
  apply (tracks_mark (K := K) he).bind (fun _ h => h) fun e' he' _ => writes_forM he' hK hx
  rintro w m w' m' - ⟨grew, _, rfl, hs⟩
  refine ⟨trivial, ?_⟩
  rintro w'' m'' ⟨grew', values, hv, hs'⟩
  refine ⟨grew.trans grew' fun _ => False.elim, values, hv, ?_⟩
  rw [hs', hs]
  rfl

theorem writes_items (he : Orderly True e) (hK : ∀ item ∈ items, (K item).Stable S)
    (hx : ∀ item ∈ items, ∀ e, Orderly True e → Writes S N e (x item) (K item)) :
    Tracks S N e ((if 3 < items.length then emit .mark else pure ()) >>= fun _ => items.forM x)
      (fun _ _ => True) (PushedOn S (Stack.opened items.length) (.all K items)) := by
  unfold Stack.opened
  split
  · exact writes_marked he hK hx
  · rw [pure_bind]
    exact writes_forM he hK hx

theorem saveTuple_map (some : items ≠ []) (identity : Encoding Identity) :
    saveTuple identity (items.map x) =
      (((if 3 < items.length then emit .mark else pure ()) >>= fun _ => items.forM x) >>= fun _ =>
        emit (tupleInstruction items.length)) >>= fun _ => identity >>= memoize := by
  have forM : (items.map x).forM id = items.forM x := by
    simp [List.forM_eq_forM]
  unfold saveTuple
  split
  · simp_all
  · rw [forM, List.length_map]
    split <;> simp [bind_assoc]

theorem Image.forall₂_of_all {items : List Nat} {w : World} {h : Heap} {values : List Value}
    (hv : Image.all (.showing S) items w h values) : List.Forall₂ (S.Shows w) items values := by
  induction items generalizing values with
  | nil =>
    obtain rfl := hv
    exact .nil
  | cons item items ih =>
    obtain ⟨_, _, rfl, ⟨v, rfl, hs⟩, hrest⟩ := hv
    exact .cons hs (ih hrest)

theorem grew_withOrigin {memo : Table Identity Nat} {w : World} {m : Machine} {p p' : Nat}
    (sim : Sim S memo w p m) (hp : p < p') (h : Heap) (id : Nat) :
    S.Grew w h (w.withOrigin p' id) h :=
  ⟨World.extends_withOrigin (sim.origin_eq_none hp) id, Nat.le_refl _, fun _ _ _ => rfl,
    fun _ _ ho => .inl ho⟩

/-- What a tuple of values is an image of, once it has been made. -/
def Closes (S : Scene) (I J : Image) : Prop :=
  ∀ memo w m p p' values, Sim S memo w p m → p < p' → I w m.heap values →
    ∃ w', Sim S memo w' p' m ∧ S.Grew w m.heap w' m.heap ∧ J w' m.heap [.tuple values p']

theorem writes_tuple (he : Orderly True e) (some : items ≠ [])
    (hK : ∀ item ∈ items, (K item).Stable S)
    (single : ∀ item ∈ items, ∀ w h values, K item w h values → values.length = 1)
    (hx : ∀ item ∈ items, ∀ e, Orderly True e → Writes S N e (x item) (K item))
    (closes : Closes S (.all K items) J) :
    Writes S N e (((if 3 < items.length then emit .mark else pure ()) >>= fun _ =>
      items.forM x) >>= fun _ => emit (tupleInstruction items.length)) J := by
  apply (writes_items he hK hx).emit (plain_tupleInstruction _)
  · unfold tupleInstruction
    split <;> trivial
  · unfold tupleInstruction
    split <;> nofun
  · unfold tupleInstruction
    split <;> nofun
  rintro e' w m w₁ m₁ p next - ⟨grew, values, hv, hs⟩ sim hp -
  obtain ⟨w₂, sim₂, grew₂, hJ⟩ := closes _ _ _ _ _ _ sim hp hv
  have hlen := Image.length_all single hv
  have nonempty : values ≠ [] := by
    rintro rfl
    exact some (List.length_eq_zero_iff.1 hlen.symm)
  rw [← hlen] at hs ⊢
  rw [Machine.ensures_tupleInstruction nonempty hs]
  split
  · next full => exact .inl ⟨rfl, full⟩
  · intro trace
    exact ⟨w₂, sim₂.at le_rfl rfl le_rfl rfl, grew.trans grew₂ fun _ => False.elim,
      [.tuple values next.position], hJ, rfl⟩

/-- The image of a tuple of values. -/
def Image.tupled (I : Image) : Image :=
  fun w h values => ∃ items birth, values = [.tuple items birth] ∧ I w h items

theorem closes_tupled (I : Image) : Closes S I I.tupled := by
  intro memo w m p p' values sim hp hv
  exact ⟨w, sim.at hp.le rfl le_rfl rfl, .refl _ _, values, p', rfl, hv⟩

theorem writes_saveFresh (he : Orderly True e) (hK : ∀ item ∈ items, (K item).Stable S)
    (single : ∀ item ∈ items, ∀ w h values, K item w h values → values.length = 1)
    (hx : ∀ item ∈ items, ∀ e, Orderly True e → Writes S N e (x item) (K item)) :
    Writes S N e (saveTuple fresh (items.map x)) (Image.tupled (.all K items)) := by
  match items, hK, single, hx with
  | [], _, _, _ =>
    apply writes_push (i := .emptyTuple) (v := fun p => .tuple [] p) he ⟨rfl, rfl⟩ trivial
      ⟨nofun, nofun⟩
      (fun _ => rfl)
    intro memo w m p p' sim hp
    exact closes_tupled _ memo w m p p' [] sim hp rfl
  | item :: rest, hK, single, hx =>
    rw [saveTuple_map (by simp)]
    apply (writes_tuple he (by simp) hK single hx (closes_tupled _)).memoizeFresh
    intro memo n absent
    apply stored_pushed absent
    rintro w _ _ ⟨values, birth, rfl, _⟩
    exact ⟨_, rfl, trivial⟩

/-- The image of a tuple whose birth has not been recorded. -/
def Image.unborn (I : Image) : Image :=
  fun w h values => ∃ items birth, values = [.tuple items birth] ∧ w.origin birth = none ∧
    birth ≤ w.clock ∧ I w h items

theorem closes_unborn (hK : ∀ item ∈ items, (K item).Lasting) :
    Closes S (.all K items) (Image.unborn (.all K items)) := by
  intro memo w m p p' values sim hp hv
  have world := World.extends_withClock (sim.clock.trans hp.le)
  refine ⟨_, sim.withClock hp.le, ⟨world, le_rfl, fun _ _ _ => rfl, fun _ _ ho => .inl ho⟩, values,
    p', rfl, sim.origin_eq_none hp, le_rfl, ?_⟩
  exact Image.lasting_all hK _ _ _ _ _ hv world

/-- A tuple of the graph is stored, and its birth is recorded. -/
theorem stored_unborn {id : Nat} {items : List Nat} {memo : Table Identity Nat}
    {P : World → Machine → Prop} (hg : S.graph.node id = .tuple items)
    (absent : memo.contains (.node id) = false) :
    Stored S memo (.node id) P (Pushed S (Image.unborn (.all (.showing S) items)))
      (Pushed S (.showing S id)) := by
  rintro w m w₁ m₁ - ⟨grew, _, ⟨values, birth, rfl, unborn, hb, hv⟩, hs⟩
  have world := World.extends_withOrigin unborn id
  have shows : S.Shows (w₁.withOrigin birth id) id (.tuple values birth) := by
    obtain ⟨hl, hs⟩ := List.forall₂_iff_zip.1 (Image.forall₂_of_all hv)
    exact .tuple hg (if_pos rfl) hl fun _ hp => (hs hp).mono world
  refine ⟨_, m.stack.items, by rw [hs]; rfl, ?_⟩
  intro p p' trace sim hp
  refine ⟨_, sim.bear absent unborn hb shows hp trace, ?_, [_], ⟨_, rfl, shows⟩, hs⟩
  refine ⟨grew.world.trans world, grew.size, grew.kept, ?_⟩
  intro id' o ho
  exact (grew.filled id' o ho).imp_right fun hf => ⟨hf.1, hf.2.mono world rfl⟩

/-- A tuple of the graph, which none of its items stores. -/
theorem writes_saveTuple {id : Nat} {items : List Nat} {x : Nat → Encoding Unit}
    (he : Orderly True e) (hg : S.graph.node id = .tuple items) (hN : ∀ id, N id → M id)
    (absent : .node id ∉ storesOf e.history) (outside : ¬ N id) (inside : M id)
    (hx : ∀ item ∈ items, ∀ e, Orderly True e → Writes S N e (x item) (.showing S item)) :
    Writes S M e (saveTuple (pure (.node id)) (items.map x)) (.showing S id) := by
  have single (item : Nat) (w : World) (h : Heap) (values : List Value)
      (hv : Image.showing S item w h values) : values.length = 1 := by
    obtain ⟨_, rfl, _⟩ := hv
    rfl
  match items, hg, hx with
  | [], hg, _ =>
    apply writes_push (i := .emptyTuple) (v := fun p => .tuple [] p) he ⟨rfl, rfl⟩ trivial
      ⟨nofun, nofun⟩
      (fun _ => rfl)
    intro memo w m p p' sim hp
    have empty : (S.graph.node id).isFilledTuple = false := by
      rw [hg]
      rfl
    exact ⟨_, sim.withOrigin hp empty, grew_withOrigin sim hp _ id, _, rfl,
      .tuple hg (if_pos rfl) rfl nofun⟩
  | item :: rest, hg, hx =>
    rw [saveTuple_map (by simp), pure_bind]
    apply (writes_tuple he (by simp) (fun item _ => (Image.lasting_showing S item).stable)
      (fun item _ => single item) hx
      (closes_unborn fun item _ => Image.lasting_showing S item)).memoize hN absent outside inside
    exact fun memo free => stored_unborn hg free

end Tuples

end Checkpoint.Pickle
