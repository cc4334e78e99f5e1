import Checkpoint.Archive.Load
import Checkpoint.Proofs.Pickle.Closure
import Checkpoint.Proofs.Table
import Mathlib.Logic.Relation

/-! Decoding is contained: it fails in three documented ways only, and touches nothing outside the
machine but to register the storages of references. -/

namespace Checkpoint

/-- The failures that decoding an object stream is documented to have. -/
def Error.IsDecoding : Error → Prop
  | .unsupportedProtocol _ | .unexpectedStructure _ | .missingStorage .. => True
  | _ => False

namespace Archive

open Pickle

/-- What is registered after a reference has been resolved. -/
def Arena.Resolves (a b : Arena) : Prop := ∃ r blob, a.resolve r = .ok (blob, b)

/-- What is registered after any references have been resolved. -/
def Arena.Extends : Arena → Arena → Prop := Relation.ReflTransGen Arena.Resolves

theorem Reader.recordSize_of_hasRecord {r : Reader} {name : Text} (h : r.hasRecord name = true) :
    ∃ e, r.entry? name = some e ∧ r.recordSize name = .ok e.1.size := by
  obtain ⟨e, he⟩ := Table.exists_get?_of_contains h
  refine ⟨e, he, ?_⟩
  simp only [recordSize, entry, entry?, he]
  rfl

theorem Reader.storageSize_error {r : Reader} {key : Text} {e : Error}
    (h : r.storageSize key = .error e) : e.IsDecoding := by
  unfold storageSize requireStorage at h
  split at h
  next hr =>
    obtain ⟨entry, -, hs⟩ := recordSize_of_hasRecord hr
    change r.recordSize (storageRecord key) = .error e at h
    simp [hs] at h
  next =>
    cases h
    trivial

theorem Arena.resolve_error {a : Arena} {r : PersistentRef} {e : Error}
    (h : a.resolve r = .error e) : e.IsDecoding := by
  unfold resolve at h
  split at h
  next =>
    split at h <;> cases h
    trivial
  next =>
    rw [bind_eq_error] at h
    obtain hs | ⟨_, _, hr⟩ := h
    · exact Reader.storageSize_error hs
    · split at hr <;> cases hr
      trivial

theorem Arena.check_error {a : Arena} {t : TensorRef} {e : Error} (h : a.check t = .error e) :
    e.IsDecoding := by
  unfold check at h
  split at h
  next => cases h; trivial
  next blob _ =>
    split at h
    next => cases h; trivial
    next =>
      cases hv : checkView t blob.count with
      | error cause => rw [hv] at h; cases h; trivial
      | ok => rw [hv] at h; cases h

end Archive

namespace Pickle

open Effect Archive

theorem Heap.intSequence_error {h : Heap} {field : TensorField} {v : Value} {e : Error}
    (he : h.intSequence field v = .error e) : e.IsDecoding := by
  unfold intSequence at he
  split at he <;> cases he
  trivial

namespace Constructor

theorem tensorRef_error {h : Heap} {storage offset size stride requiresGrad : Value} {e : Error}
    (he : tensorRef h storage offset size stride requiresGrad = .error e) : e.IsDecoding := by
  unfold tensorRef at he
  split at he
  next =>
    split at he
    next =>
      split at he
      next =>
        simp only [bind_eq_error] at he
        obtain hs | ⟨_, _, ht | ⟨_, _, hr⟩⟩ := he
        · exact Heap.intSequence_error hs
        · exact Heap.intSequence_error ht
        · cases hr
      next => cases he; trivial
    next => cases he; trivial
  next => cases he; trivial

theorem buildTensor_error {h : Heap}
    {storage offset size stride requiresGrad hooks metadata : Value} {e : Error}
    (he : buildTensor h storage offset size stride requiresGrad hooks metadata = .error e) :
    e.IsDecoding := by
  unfold buildTensor at he
  split at he
  next => cases he; trivial
  next =>
    split at he
    next => cases he; trivial
    next =>
      rw [bind_eq_error] at he
      obtain ht | ⟨_, _, hr⟩ := he
      · exact tensorRef_error ht
      · cases hr

theorem buildOrdered_error {h : Heap} {arguments : List Value} {birth : Nat} {e : Error}
    (he : buildOrdered h arguments birth = .error e) : e.IsDecoding := by
  unfold buildOrdered at he
  repeat' split at he
  all_goals cases he
  all_goals trivial

theorem call_error {c : Constructor} {h : Heap} {arguments : List Value} {birth : Nat} {e : Error}
    (he : c.call h arguments birth = .error e) : e.IsDecoding := by
  unfold call at he
  split at he
  case h_1 => exact buildOrdered_error he
  case h_2 storage offset size stride =>
    rw [bind_eq_error] at he
    obtain ht | ⟨_, _, hr⟩ := he
    · exact tensorRef_error ht
    · cases hr
  case h_3 storage offset size stride requiresGrad hooks rest =>
    split at he
    · exact buildTensor_error he
    · exact buildTensor_error he
    · cases he
      trivial
  case h_4 =>
    repeat' split at he
    all_goals cases he
    all_goals trivial
  case h_5 => split at he <;> cases he <;> trivial

end Constructor

namespace Machine

variable {config : Config} {c : Cursor} {m : Machine}

theorem persistentRef_error {h : Heap} {id : Value} {e : Error}
    (he : persistentRef h id = .error e) : e.IsDecoding := by
  unfold persistentRef at he
  repeat' split at he
  all_goals cases he
  all_goals trivial

/-- Fails only as decoding does, and registers nothing but storages of references. -/
def Contained (x : Running α) : Prop :=
  ∀ m, x.Ensures m (fun _ m' => m.arena.Extends m'.arena) fun e _ => e.IsDecoding

theorem Contained.of_same (h : ∀ m, x.Ensures m (fun _ m' => m'.arena = m.arena)
    fun e _ => e.IsDecoding) : Contained (α := α) x := by
  intro m
  apply (h m).post
  rintro _ m' hm
  rw [hm]
  exact .refl

theorem contained_throw {e : Error} (h : e.IsDecoding) : Contained (throw e : Running α) :=
  fun _ => (ensures_throw e).2 h

theorem contained_modify {f : Machine → Machine} (h : ∀ m, (f m).arena = m.arena) :
    Contained (modify f) :=
  .of_same fun m => (ensures_modify f).2 (h m)

theorem composable_contained : Composable Contained where
  pure a _ := (ensures_pure a).2 .refl
  refuse cause := contained_throw (e := .unsupportedProtocol cause) trivial
  bind hx hf m := (ensures_bind _).2 ((hx m).post fun a m' hm =>
    (hf a m').post fun _ _ h => hm.trans h)
  look _ h m := (ensures_bind _).2 (ensures_get.2 (h m m))

theorem contained_push (v : Value) : Contained (push config v) :=
  composable_contained.bind composable_contained.checkDepth fun _ => contained_modify fun _ => rfl

theorem contained_mark : Contained (mark config) :=
  composable_contained.bind composable_contained.checkDepth fun _ => contained_modify fun _ => rfl

theorem contained_pop (c : Cursor) : Contained (pop c) := by
  apply Contained.of_same
  intro m
  rw [ensures_pop]
  split
  · trivial
  · rfl

theorem contained_popMark (c : Cursor) : Contained (popMark c) := by
  apply Contained.of_same
  intro m
  rw [ensures_popMark]
  split
  · trivial
  · rfl

theorem contained_pushObject (o : Object) : Contained (pushObject config o) := by
  intro m
  rw [ensures_pushObject]
  exact contained_push _ { m with heap := (m.heap.allocate o).2 }

theorem contained_setObject (id : Nat) (o : Object) : Contained (setObject id o) :=
  contained_modify fun _ => rfl

theorem contained_memoPut (c : Cursor) (index : Nat) : Contained (memoPut config c index) := by
  intro m
  rw [ensures_memoPut]
  split
  · trivial
  · exact (composable_contained.top m).post fun _ _ h => h

theorem contained_reduce (c : Cursor) : Contained (reduce c) := by
  refine composable_contained.bind (contained_pop c) fun arguments =>
    composable_contained.bind composable_contained.top fun target m => ?_
  rw [ensures_bind, ensures_get]
  split
  · split
    · split
      · exact (ensures_set _).2 .refl
      · next he => exact (ensures_throw _).2 (Constructor.call_error he)
    · exact composable_contained.refuse _ m
  · exact composable_contained.refuse _ m

theorem contained_resolvePersistent (c : Cursor) : Contained (resolvePersistent config c) := by
  refine composable_contained.bind (contained_pop c) fun id m => ?_
  simp only [ensures_bind, ensures_get]
  refine ensures_ofExcept (fun ref _ => ?_) fun e he => persistentRef_error he
  refine ensures_ofExcept ?_ fun e he => Arena.resolve_error he
  rintro ⟨blob, arena⟩ hr
  rw [ensures_set]
  apply (contained_push _ _).post
  intro _ m' hm
  exact .head ⟨ref, blob, hr⟩ hm

/-- The primitives are contained, whatever the state they meet. -/
theorem closed_contained : Closed config Contained where
  toComposable := composable_contained
  valuesLeft := contained_throw trivial
  protocol _ := contained_modify fun _ => rfl
  trace _ := contained_modify fun _ => rfl
  push := contained_push
  pop := contained_pop
  popMark := contained_popMark
  mark := contained_mark
  emptyList := contained_pushObject _
  emptyDict := contained_pushObject _
  extendList _ := composable_contained.extendList contained_setObject
  enterItems _ := composable_contained.enterItems contained_setObject
  memoPut := contained_memoPut
  reduce := contained_reduce
  build c := composable_contained.build (contained_pop c)
    (composable_contained.setAttributes contained_setObject)
  resolvePersistent := contained_resolvePersistent

theorem contained_execute (i : Instruction) : Contained (execute config c i) :=
  closed_contained.execute i

theorem contained_run (c : Cursor) : Contained (run config c) := closed_contained.run c

end Machine

end Pickle

end Checkpoint
