import Checkpoint.Proofs.Pickle.Execution

/-! Conditions on what a machine does.  One that is closed under putting actions together, and that the
primitives of the machine satisfy, is satisfied by every instruction and by every run. -/

namespace Checkpoint.Pickle.Machine

/-- A condition on actions that holds of refusals, and of what is put together from actions that it holds
of.  Whatever they look up lies outside the arena. -/
structure Composable (K : ∀ {α : Type}, Running α → Prop) : Prop where
  pure : ∀ {α : Type} (a : α), K (pure a : Running α)
  refuse : ∀ {α : Type} (cause : ProtocolError), K (refuse cause : Running α)
  bind : ∀ {α β : Type} {x : Running α} {f : α → Running β}, K x → (∀ a, K (f a)) → K (x >>= f)
  look : ∀ {α : Type} {f : Machine → Running α}, (∀ m arena, f { m with arena } = f m) →
    (∀ m, K (f m)) → K (get >>= f)

/-- A condition that the primitives of a machine satisfy. -/
structure Closed (config : Config) (K : ∀ {α : Type}, Running α → Prop) : Prop extends Composable K where
  valuesLeft : K (throw (.unexpectedStructure .valuesLeft) : Running PUnit)
  protocol : ∀ version, K (modify fun m : Machine => { m with protocol := version })
  trace : ∀ c, K (modify fun m : Machine => { m with trace := m.snapshot c :: m.trace })
  push : ∀ v, K (push config v)
  pop : ∀ c, K (pop c)
  popMark : ∀ c, K (popMark c)
  mark : K (mark config)
  emptyList : K (pushObject config (.list []))
  emptyDict : K (pushObject config (.dict {}))
  extendList : ∀ c items, K (extendList c items)
  enterItems : ∀ c items, K (enterItems c items)
  memoPut : ∀ c index, K (memoPut config c index)
  reduce : ∀ c, K (reduce c)
  build : ∀ c, K (build c)
  resolvePersistent : ∀ c, K (resolvePersistent config c)

variable {config : Config} {c : Cursor} {K : ∀ {α : Type}, Running α → Prop}

namespace Composable

variable (k : Composable K)
include k

theorem checkDepth : K (checkDepth config) := by
  refine k.look (fun _ _ => rfl) fun m => ?_
  split
  · exact k.refuse _
  · exact k.pure _

theorem top : K (top c) := by
  refine k.look (fun _ _ => rfl) fun m => ?_
  split
  · exact k.refuse _
  · exact k.pure _

theorem extendList (set : ∀ id o, K (setObject id o)) (items : List Value) : K (extendList c items) := by
  refine k.bind k.top fun target => k.look (fun _ _ => rfl) fun m => ?_
  dsimp only
  split
  · split
    · exact set _ _
    · exact k.refuse _
  · exact k.refuse _

theorem enterItems (set : ∀ id o, K (setObject id o)) (items : List (Value × Value)) :
    K (enterItems c items) := by
  have finish (hashable : Bool) :
      K (unless hashable do Machine.refuse (.unhashableKey (lastOffset c)) : Running Unit) := by
    cases hashable
    · exact k.refuse _
    · exact k.pure _
  refine k.bind k.top fun target => k.look (fun _ _ => rfl) fun m => ?_
  dsimp only
  split
  · split
    · exact k.bind (set _ _) fun _ => finish _
    · exact k.bind (set _ _) fun _ => finish _
    · exact k.refuse _
  · exact k.refuse _

theorem setAttributes (set : ∀ id o, K (setObject id o)) (id : Nat) (items : List (Value × Value)) :
    K (setAttributes id items) := by
  induction items with
  | nil => exact k.pure _
  | cons item items ih =>
    unfold Machine.setAttributes
    refine k.look (fun _ _ => rfl) fun m => ?_
    dsimp only
    split
    · split
      · exact k.bind (set _ _) fun _ => ih
      · exact k.refuse _
    · exact k.refuse _

theorem build (pop : K (pop c)) (attributes : ∀ id items, K (Machine.setAttributes id items)) :
    K (build c) := by
  refine k.bind pop fun state => k.bind k.top fun target => k.look (fun _ _ => rfl) fun m => ?_
  dsimp only
  split
  · split
    · exact k.refuse _
    · exact k.pure _
  · split
    · split
      · exact attributes _ _
      · exact attributes _ _
      · exact k.refuse _
    · exact k.refuse _
  · exact k.refuse _

theorem result (pop : K (pop c))
    (valuesLeft : K (throw (.unexpectedStructure .valuesLeft) : Running PUnit)) : K (result c) := by
  refine k.bind pop fun v => k.look (fun _ _ => rfl) fun m => ?_
  dsimp only
  split
  · exact k.pure _
  · exact k.bind valuesLeft fun _ => k.pure _

end Composable

namespace Closed

variable (k : Closed config K)
include k

theorem memoGet (index : Nat) : K (memoGet config index) := by
  refine k.look (fun _ _ => rfl) fun m => ?_
  split
  · exact k.push _
  · exact k.refuse _

theorem pushGlobal (module name : Text) : K (pushGlobal config module name) := by
  unfold Machine.pushGlobal
  split
  · exact k.push _
  · exact k.refuse _

/-- The instructions are put together from the primitives. -/
theorem execute (i : Instruction) : K (execute config c i) := by
  cases i with
  | proto version =>
    simp only [Machine.execute]
    split
    · exact k.bind (k.refuse _) fun _ => k.protocol _
    · exact k.protocol _
  | frame size =>
    simp only [Machine.execute]
    split
    · exact k.refuse _
    · exact k.pure _
  | stop => exact k.pure _
  | mark => exact k.mark
  | pop =>
    refine k.look (fun _ _ => rfl) fun m => ?_
    split
    · exact k.bind (k.popMark c) fun _ => k.pure _
    · exact k.bind (k.pop c) fun _ => k.pure _
  | popMark => exact k.bind (k.popMark c) fun _ => k.pure _
  | none | bool | int1 | int2 | int4 | long | float | unicode | shortUnicode | unicode8 | string
  | shortString | bytes | shortBytes | emptyTuple => exact k.push _
  | tuple => exact k.bind (k.popMark c) fun _ => k.push _
  | tuple1 => exact k.bind (k.pop c) fun _ => k.push _
  | tuple2 => exact k.bind (k.pop c) fun _ => k.bind (k.pop c) fun _ => k.push _
  | tuple3 =>
    exact k.bind (k.pop c) fun _ => k.bind (k.pop c) fun _ => k.bind (k.pop c) fun _ => k.push _
  | emptyList => exact k.emptyList
  | emptyDict => exact k.emptyDict
  | append => exact k.bind (k.pop c) fun _ => k.extendList c _
  | appends => exact k.bind (k.popMark c) fun _ => k.extendList c _
  | setItem => exact k.bind (k.pop c) fun _ => k.bind (k.pop c) fun _ => k.enterItems c _
  | setItems =>
    refine k.bind (k.popMark c) fun items => ?_
    dsimp only
    split
    · exact k.bind (k.refuse _) fun _ => k.enterItems c _
    · exact k.enterItems c _
  | put | longPut => exact k.memoPut c _
  | memoize => exact k.look (fun _ _ => rfl) fun _ => k.memoPut c _
  | get | longGet => exact k.memoGet _
  | «global» => exact k.pushGlobal _ _
  | stackGlobal =>
    refine k.bind (k.pop c) fun name => k.bind (k.pop c) fun module => ?_
    split
    · exact k.pushGlobal _ _
    · exact k.refuse _
  | reduce => exact k.reduce c
  | build => exact k.build c
  | persistentId => exact k.resolvePersistent c

/-- A run is a chain of instructions, each followed by a snapshot. -/
theorem run (c : Cursor) : K (run config c) := by
  induction c using run.induct with
  | case1 c cause unread =>
    rw [run_of_error unread]
    exact k.refuse _
  | case2 c next read =>
    rw [run_of_stop read]
    exact k.bind (k.toComposable.result (k.pop next) k.valuesLeft) fun _ => k.pure _
  | case3 c i next read _ going ih =>
    rw [run_of_read read going]
    exact k.bind (k.execute i) fun _ => k.bind (k.trace next) fun _ => ih

end Closed

end Checkpoint.Pickle.Machine
