import Checkpoint.Proofs.Pickle.Arrival
import Checkpoint.Proofs.Pickle.Closure
import Checkpoint.Proofs.Table

/-! How much a machine can grow.  An instruction adds at most one value or mark to the stacks and one
entry to the memo, and takes at least one byte of the stream. -/

namespace Checkpoint.Pickle

open Archive Effect

namespace Stack

variable {items below : List Value} {suspended : List (List Value)} {v : Value}

theorem depth_eq (s : Stack) : s.depth = s.items.length + (s.suspended.map (·.length + 1)).sum := by
  unfold depth
  induction s.suspended with
  | nil => rfl
  | cons below rest ih =>
    rw [List.foldr_cons, ih, List.map_cons, List.sum_cons]
    omega

@[simp] theorem depth_push : depth ⟨v :: items, suspended⟩ = depth ⟨items, suspended⟩ + 1 := by
  simp only [depth_eq, List.length_cons]
  omega

@[simp] theorem depth_mark : depth ⟨[], items :: suspended⟩ = depth ⟨items, suspended⟩ + 1 := by
  simp only [depth_eq, List.map_cons, List.sum_cons, List.length_nil]
  omega

theorem depth_popMark : depth ⟨below, suspended⟩ + 1 ≤ depth ⟨items, below :: suspended⟩ := by
  simp only [depth_eq, List.map_cons, List.sum_cons]
  omega

end Stack

namespace Machine

variable {config : Config} {c : Cursor} {m m' m'' : Machine} {n k : Nat}

/-- A machine has at most so many more values and marks, and memo entries, than another. -/
structure GrownBy (n : Nat) (m m' : Machine) : Prop where
  depth : m'.stack.depth ≤ m.stack.depth + n
  memo : m'.memo.size ≤ m.memo.size + n

theorem GrownBy.trans (h : GrownBy n m m') (h' : GrownBy k m' m'') : GrownBy (n + k) m m'' where
  depth := by have := h.depth; have := h'.depth; omega
  memo := by have := h.memo; have := h'.memo; omega

theorem GrownBy.mono (h : GrownBy n m m') (hn : n ≤ k) : GrownBy k m m' where
  depth := by have := h.depth; omega
  memo := by have := h.memo; omega

theorem GrownBy.of_eq (hs : m'.stack = m.stack) (hm : m'.memo = m.memo) : GrownBy n m m' := by
  constructor
  · rw [hs]
    exact Nat.le_add_right _ _
  · rw [hm]
    exact Nat.le_add_right _ _

/-- Whether it succeeds or fails, an action lets the machine grow by so much at most. -/
def Grows (n : Nat) (x : Running α) : Prop :=
  ∀ m, x.Ensures m (fun _ m' => GrownBy n m m') fun _ m' => GrownBy n m m'

theorem Grows.mono {x : Running α} (hx : Grows n x) (hn : n ≤ k) : Grows k x :=
  fun m => (hx m).mono (fun _ _ h => GrownBy.mono h hn) fun _ _ h => GrownBy.mono h hn

theorem Grows.bind {x : Running α} {f : α → Running β} (hx : Grows n x) (hf : ∀ a, Grows k (f a)) :
    Grows (n + k) (x >>= f) := by
  intro m
  rw [ensures_bind]
  apply (hx m).mono
  · intro a m' h
    exact (hf a m').mono (fun _ _ h' => h.trans h') fun _ _ h' => h.trans h'
  · exact fun _ m' h => h.mono (Nat.le_add_right _ _)

theorem Grows.after {x : Running α} {f : α → Running β} (hx : Grows 0 x) (hf : ∀ a, Grows n (f a)) :
    Grows n (x >>= f) := by
  rw [← Nat.zero_add n]
  exact hx.bind hf

theorem grows_of_same {x : Running α} (h : ∀ m, x.Ensures m
    (fun _ m' => m'.stack = m.stack ∧ m'.memo = m.memo)
    fun _ m' => m'.stack = m.stack ∧ m'.memo = m.memo) : Grows n x :=
  fun m => (h m).mono (fun _ _ h => .of_eq h.1 h.2) fun _ _ h => .of_eq h.1 h.2

theorem grows_pure (a : α) : Grows n (pure a) :=
  grows_of_same fun _ => (ensures_pure a).2 ⟨rfl, rfl⟩

theorem grows_get : Grows n get := grows_of_same fun _ => ensures_get.2 ⟨rfl, rfl⟩

theorem grows_throw (e : Error) : Grows n (throw e : Running α) :=
  grows_of_same fun _ => (ensures_throw e).2 ⟨rfl, rfl⟩

theorem grows_refuse (cause : ProtocolError) : Grows n (refuse cause : Running α) :=
  grows_of_same fun _ => (ensures_refuse cause).2 ⟨rfl, rfl⟩

theorem grows_modify {f : Machine → Machine} (hs : ∀ m, (f m).stack = m.stack)
    (hm : ∀ m, (f m).memo = m.memo) : Grows n (modify f) :=
  grows_of_same fun m => (ensures_modify f).2 ⟨hs m, hm m⟩

theorem grows_push (v : Value) : Grows 1 (push config v) := by
  intro m
  rw [ensures_push]
  split
  · exact .of_eq rfl rfl
  · exact ⟨Nat.le_of_eq Stack.depth_push, Nat.le_succ _⟩

theorem grows_pop : Grows 0 (pop c) := by
  intro m
  rw [ensures_pop]
  split
  · exact .of_eq rfl rfl
  · next v rest hs =>
    refine ⟨?_, Nat.le_refl _⟩
    have : m.stack = ⟨v :: rest, m.stack.suspended⟩ := by rw [← hs]
    rw [this, Stack.depth_push]
    exact Nat.le_succ _

theorem grows_popMark : Grows 0 (popMark c) := by
  intro m
  rw [ensures_popMark]
  split
  · exact .of_eq rfl rfl
  · next below rest hs =>
    refine ⟨?_, Nat.le_refl _⟩
    have : m.stack = ⟨m.stack.items, below :: rest⟩ := by rw [← hs]
    rw [this]
    exact Nat.le_of_lt Stack.depth_popMark

theorem grows_mark : Grows 1 (mark config) := by
  intro m
  rw [ensures_mark]
  split
  · exact .of_eq rfl rfl
  · exact ⟨Nat.le_of_eq Stack.depth_mark, Nat.le_succ _⟩

theorem grows_pushObject (o : Object) : Grows 1 (pushObject config o) := by
  intro m
  rw [ensures_pushObject]
  apply (grows_push _ _).mono
  · exact fun _ _ h => ⟨h.depth, h.memo⟩
  · exact fun _ _ h => ⟨h.depth, h.memo⟩

theorem grows_setObject (id : Nat) (o : Object) : Grows n (setObject id o) :=
  grows_modify (fun _ => rfl) fun _ => rfl

/-- What adds nothing can be put together. -/
theorem composable_grows : Composable (Grows 0) where
  pure := grows_pure
  refuse := grows_refuse
  bind := Grows.after
  look _ h := grows_get.after h

theorem grows_extendList (items : List Value) : Grows n (extendList c items) :=
  (composable_grows.extendList grows_setObject items).mono (Nat.zero_le n)

theorem grows_enterItems (items : List (Value × Value)) : Grows n (enterItems c items) :=
  (composable_grows.enterItems grows_setObject items).mono (Nat.zero_le n)

theorem grows_memoPut (index : Nat) : Grows 1 (memoPut config c index) := by
  intro m
  rw [ensures_memoPut]
  split
  · exact .of_eq rfl rfl
  · rw [ensures_top]
    split
    · exact .of_eq rfl rfl
    · refine ⟨Nat.le_succ _, ?_⟩
      rw [Table.size_insert]
      split <;> omega

theorem grows_memoGet (index : Nat) : Grows 1 (memoGet config index) := by
  intro m
  rw [ensures_memoGet]
  split
  · exact grows_push _ m
  · exact .of_eq rfl rfl

theorem grows_pushGlobal (module name : Text) : Grows 1 (pushGlobal config module name) := by
  unfold pushGlobal
  split
  · exact grows_push _
  · exact grows_refuse _

/-- The result of a call takes the place of the constructor. -/
theorem grows_reduce : Grows n (reduce c) := by
  refine Grows.after grows_pop fun arguments m => ?_
  rw [ensures_bind, ensures_top]
  split
  · exact .of_eq rfl rfl
  · next target below hs =>
    rw [ensures_bind, ensures_get]
    split
    · split
      · split
        · rw [ensures_set]
          refine ⟨?_, Nat.le_add_right _ _⟩
          simp only [hs, List.tail_cons, Stack.depth_eq, List.length_cons]
          omega
        · exact grows_throw _ m
      · exact grows_refuse _ m
    · exact grows_refuse _ m

theorem grows_build : Grows n (build c) :=
  (composable_grows.build grows_pop (composable_grows.setAttributes grows_setObject)).mono (Nat.zero_le n)

theorem grows_resolvePersistent : Grows 1 (resolvePersistent config c) := by
  refine Grows.after grows_pop fun id m => ?_
  rw [ensures_bind, ensures_get, ensures_bind]
  refine ensures_ofExcept (fun ref _ => ?_) fun _ _ => .of_eq rfl rfl
  rw [ensures_bind]
  refine ensures_ofExcept (fun registered _ => ?_) fun _ _ => .of_eq rfl rfl
  rw [ensures_bind, ensures_set]
  apply (grows_push _ _).mono
  · exact fun _ _ h => ⟨h.depth, h.memo⟩
  · exact fun _ _ h => ⟨h.depth, h.memo⟩

/-- An instruction adds one value, mark or entry at most. -/
theorem grows_execute (i : Instruction) : Grows 1 (execute config c i) := by
  cases i with
  | proto version =>
    simp only [execute]
    split
    · exact (grows_refuse _).after fun _ => grows_modify (fun _ => rfl) fun _ => rfl
    · exact grows_modify (fun _ => rfl) fun _ => rfl
  | frame size =>
    simp only [execute]
    split
    · exact grows_refuse _
    · exact grows_pure _
  | stop => exact grows_pure _
  | mark => exact grows_mark
  | pop =>
    simp only [execute]
    refine grows_get.after fun m => ?_
    split
    · exact grows_popMark.after fun _ => grows_pure _
    · exact grows_pop.after fun _ => grows_pure _
  | popMark => exact grows_popMark.after fun _ => grows_pure _
  | none | bool | int1 | int2 | int4 | long | float | unicode | shortUnicode | unicode8 | string
  | shortString | bytes | shortBytes | emptyTuple => exact grows_push _
  | tuple => exact grows_popMark.after fun _ => grows_push _
  | tuple1 => exact grows_pop.after fun _ => grows_push _
  | tuple2 => exact grows_pop.after fun _ => grows_pop.after fun _ => grows_push _
  | tuple3 =>
    exact grows_pop.after fun _ => grows_pop.after fun _ => grows_pop.after fun _ => grows_push _
  | emptyList | emptyDict => exact grows_pushObject _
  | append => exact grows_pop.after fun _ => grows_extendList _
  | appends => exact grows_popMark.after fun _ => grows_extendList _
  | setItem => exact grows_pop.after fun _ => grows_pop.after fun _ => grows_enterItems _
  | setItems =>
    simp only [execute]
    refine grows_popMark.after fun items => ?_
    split
    · exact (grows_refuse _).after fun _ => grows_enterItems _
    · exact grows_enterItems _
  | put | longPut => exact grows_memoPut _
  | memoize => exact grows_get.after fun _ => grows_memoPut _
  | get | longGet => exact grows_memoGet _
  | «global» => exact grows_pushGlobal _ _
  | stackGlobal =>
    simp only [execute]
    refine grows_pop.after fun name => grows_pop.after fun module => ?_
    split
    · exact grows_pushGlobal _ _
    · exact grows_refuse _
  | reduce => exact grows_reduce
  | build => exact grows_build
  | persistentId => exact grows_resolvePersistent

theorem grows_result : Grows n (result c) :=
  (composable_grows.result grows_pop (grows_throw _)).mono (Nat.zero_le n)

/-- A run adds at most as many values, marks and entries as there are bytes. -/
theorem grows_run (c : Cursor) : Grows c.rest.length (run config c) := by
  induction c using run.induct with
  | case1 c e hr =>
    rw [run_of_error hr]
    exact grows_refuse _
  | case2 c next hr =>
    rw [run_of_stop hr]
    exact (grows_result (n := 0)).after fun _ => grows_pure _
  | case3 c i next hr shorter hi ih =>
    rw [run_of_read hr hi]
    have traced : Grows next.rest.length
        ((modify fun m : Machine => { m with trace := m.snapshot next :: m.trace }) >>= fun _ =>
          run config next) := by
      refine Grows.after (grows_modify ?_ ?_) fun _ => ih
      · exact fun _ => rfl
      · exact fun _ => rfl
    -- Each instruction takes a byte from what is left and adds one at most.
    exact fun m => ((grows_execute i).bind (fun _ => traced) m).mono
      (fun _ _ h => h.mono (by omega)) fun _ _ h => h.mono (by omega)

/-- A stream that is shorter than the limits of a machine does not reach them. -/
theorem not_isLimit_of_run {arena : Arena} {e : Error}
    (h : run config c { arena } = .error e m) (depth : c.rest.length < config.maxStackDepth)
    (memo : c.rest.length < config.maxMemoSize) : ¬ IsLimit config e m := by
  have grown := (grows_run c { arena }).of_error (perform_eq_error.2 h)
  have shallow : m.stack.depth ≤ 0 + c.rest.length := grown.depth
  have small : m.memo.size ≤ 0 + c.rest.length := grown.memo
  rintro (⟨-, full⟩ | ⟨-, full⟩)
  · omega
  · omega

end Machine

end Checkpoint.Pickle
