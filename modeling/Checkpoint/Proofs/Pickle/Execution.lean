import Checkpoint.Pickle.Machine
import Checkpoint.Proofs.Effect

/-! What each part of an instruction does, as a law on the conditions that it guarantees. -/

namespace Checkpoint.Pickle.Machine

open Effect Archive

variable {config : Config} {c : Cursor} {m : Machine} {E : Error → Machine → Prop}

def depthRefusal (config : Config) : Error :=
  .unsupportedProtocol (.stackDepth config.maxStackDepth)

def memoRefusal (config : Config) : Error :=
  .unsupportedProtocol (.memoSize config.maxMemoSize)

@[simp] theorem ensures_refuse (cause : ProtocolError) {Q : α → Machine → Prop} :
    (refuse cause : Running α).Ensures m Q E ↔ E (.unsupportedProtocol cause) m :=
  ensures_throw _

@[simp] theorem ensures_checkDepth {Q : Unit → Machine → Prop} :
    (checkDepth config).Ensures m Q E ↔
      if config.maxStackDepth ≤ m.stack.depth then E (depthRefusal config) m else Q () m := by
  simp only [checkDepth, ensures_bind, ensures_get]
  split <;> simp [depthRefusal]

@[simp] theorem ensures_push {v : Value} {Q : Unit → Machine → Prop} :
    (push config v).Ensures m Q E ↔
      if config.maxStackDepth ≤ m.stack.depth then E (depthRefusal config) m
      else Q () { m with stack := { m.stack with items := v :: m.stack.items } } := by
  simp only [push, ensures_bind, ensures_checkDepth, ensures_modify]

@[simp] theorem ensures_pop {Q : Value → Machine → Prop} :
    (pop c).Ensures m Q E ↔
      match m.stack.items with
      | [] => E (.unsupportedProtocol (.underflow (lastOffset c))) m
      | v :: rest => Q v { m with stack := { m.stack with items := rest } } := by
  simp only [pop, ensures_bind, ensures_get]
  cases m.stack.items <;> simp

@[simp] theorem ensures_top {Q : Value → Machine → Prop} :
    (top c).Ensures m Q E ↔
      match m.stack.items with
      | [] => E (.unsupportedProtocol (.underflow (lastOffset c))) m
      | v :: _ => Q v m := by
  simp only [top, ensures_bind, ensures_get]
  cases m.stack.items <;> simp

@[simp] theorem ensures_popMark {Q : List Value → Machine → Prop} :
    (popMark c).Ensures m Q E ↔
      match m.stack.suspended with
      | [] => E (.unsupportedProtocol (.noMark (lastOffset c))) m
      | below :: rest =>
        Q m.stack.items.reverse { m with stack := { items := below, suspended := rest } } := by
  simp only [popMark, ensures_bind, ensures_get]
  cases m.stack.suspended <;> simp

@[simp] theorem ensures_mark {Q : Unit → Machine → Prop} :
    (mark config).Ensures m Q E ↔
      if config.maxStackDepth ≤ m.stack.depth then E (depthRefusal config) m
      else Q () { m with
        stack := { items := [], suspended := m.stack.items :: m.stack.suspended } } := by
  simp only [mark, ensures_bind, ensures_checkDepth, ensures_modify]

@[simp] theorem ensures_pushObject {o : Object} {Q : Unit → Machine → Prop} :
    (pushObject config o).Ensures m Q E ↔
      (push config (.object m.heap.objects.size)).Ensures { m with heap := (m.heap.allocate o).2 }
        Q E := by
  simp only [pushObject, ensures_bind, ensures_get, ensures_set]
  rfl

@[simp] theorem ensures_setObject {id : Nat} {o : Object} {Q : Unit → Machine → Prop} :
    (setObject id o).Ensures m Q E ↔ Q () { m with heap := m.heap.set id o } :=
  ensures_modify _

@[simp] theorem ensures_memoPut {index : Nat} {Q : Unit → Machine → Prop} :
    (memoPut config c index).Ensures m Q E ↔
      if !m.memo.contains index && config.maxMemoSize ≤ m.memo.size then
        E (memoRefusal config) m
      else (top c).Ensures m (fun v m => Q () { m with memo := m.memo.insert index v }) E := by
  simp only [memoPut, ensures_bind, ensures_get]
  split <;> simp [memoRefusal]

@[simp] theorem ensures_memoGet {index : Nat} {Q : Unit → Machine → Prop} :
    (memoGet config index).Ensures m Q E ↔
      match m.memo.get? index with
      | some v => (push config v).Ensures m Q E
      | none => E (.unsupportedProtocol (.memoUndefined index)) m := by
  simp only [memoGet, ensures_bind, ensures_get]
  cases m.memo.get? index <;> simp

theorem run_of_error {e : ProtocolError} (h : Instruction.read c = .error e) :
    run config c = refuse e := by
  rw [run]
  split <;> simp_all

theorem run_of_stop {next : Cursor} (h : Instruction.read c = .ok (.stop, next)) :
    run config c = result next >>= fun v => pure (v, next) := by
  rw [run]
  split <;> simp_all

theorem run_of_read {next : Cursor} {i : Instruction} (h : Instruction.read c = .ok (i, next))
    (hi : i ≠ .stop) :
    run config c = execute config next i >>= fun _ =>
      (modify fun m => { m with trace := m.snapshot next :: m.trace }) >>= fun _ =>
      run config next := by
  rw [run]
  split <;> simp_all

end Checkpoint.Pickle.Machine
