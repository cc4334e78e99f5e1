import Checkpoint.Proofs.Pickle.Execution
import Checkpoint.Proofs.Table

/-! Filling a container from the stack.  Lists take values one by one, mappings in pairs; a mapping
whose keys are all new keeps them in the order in which they come. -/

namespace Checkpoint.Pickle

open Effect

inductive Kind
  | list
  | dict
  | ordered

namespace Kind

/-- The instruction that adds one item. -/
def single : Kind → Instruction
  | list => .append
  | dict | ordered => .setItem

/-- The instruction that adds all items above a mark. -/
def several : Kind → Instruction
  | list => .appends
  | dict | ordered => .setItems

/-- How many values an item has. -/
def width : Kind → Nat
  | list => 1
  | dict | ordered => 2

/-- A container of the given values. -/
def make : Kind → List Value → Object
  | list, values => .list values
  | dict, values => .dict ⟨Machine.pairs values⟩
  | ordered, values => .ordered ⟨Machine.pairs values⟩ {}

end Kind

/-- Keys and values, of which no two keys are the same. -/
def Keyed (entries : List (Value × Value)) : Prop :=
  (∀ e ∈ entries, e.1.hashable = true) ∧ entries.Pairwise fun a b => Value.same a.1 b.1 = false

/-- Whether a container can hold the values. -/
def Kind.Admits : Kind → List Value → Prop
  | list, _ => True
  | dict, values | ordered, values => Keyed (Machine.pairs values)

theorem pairs_append {a : List Value} (h : 2 ∣ a.length) (b : List Value) :
    Machine.pairs (a ++ b) = Machine.pairs a ++ Machine.pairs b := by
  induction a using Machine.pairs.induct with
  | case1 key value rest ih =>
    have : 2 ∣ rest.length := by
      simp only [List.length_cons] at h
      omega
    simp [Machine.pairs, ih this]
  | case2 a short =>
    match a, h, short with
    | [], _, _ => rfl
    | [_], h, _ => simp at h
    | x :: y :: rest, _, short => exact (short x y rest rfl).elim

theorem enterAll_eq {entries : Table Value Value} {items : List (Value × Value)}
    (h : Keyed (entries.entries ++ items)) :
    enterAll entries items = (⟨entries.entries ++ items⟩, true) := by
  induction items generalizing entries with
  | nil => simp [enterAll]
  | cons item items ih =>
    obtain ⟨key, value⟩ := item
    have hashable : key.hashable = true := h.1 (key, value) (by simp)
    have absent : entries.contains key = false := by
      simp only [Table.contains, List.any_eq_false]
      intro e he hsame
      have differs := (List.pairwise_append.1 h.2).2.2 e he (key, value) List.mem_cons_self
      exact Bool.false_ne_true (differs.symm.trans hsame)
    rw [enterAll, if_pos hashable, ih]
    · rw [Table.entries_insert_of_absent absent, List.append_assoc]
      rfl
    · rw [Table.entries_insert_of_absent absent, List.append_assoc]
      exact h

namespace Machine

variable {config : Config} {c : Cursor} {m : Machine} {E : Error → Machine → Prop}
  {Q : Unit → Machine → Prop} {k : Kind} {o : Nat} {held added : List Value}

/-- The machine after the container on top has taken values. -/
def withContainer (m : Machine) (k : Kind) (o : Nat) (values below : List Value)
    (suspended : List (List Value)) : Machine :=
  { m with
    stack := { items := .object o :: below, suspended }
    heap := m.heap.set o (k.make values) }

theorem ensures_extendList {below : List Value}
    (hs : m.stack.items = .object o :: below) (ho : m.heap.get? o = some (.list held))
    (hq : Q () { m with heap := m.heap.set o (.list (held ++ added)) }) :
    (extendList c added).Ensures m Q E := by
  simp only [extendList, ensures_bind, ensures_top, hs, ensures_get, ho, ensures_setObject]
  exact hq

theorem ensures_enterItems {k : Kind} (hk : k.width = 2) {below : List Value}
    {entries : List (Value × Value)} (hs : m.stack.items = .object o :: below)
    (even : 2 ∣ held.length) (he : entries = pairs added)
    (ho : m.heap.get? o = some (k.make held)) (admits : k.Admits (held ++ added))
    (hq : Q () { m with heap := m.heap.set o (k.make (held ++ added)) }) :
    (enterItems c entries).Ensures m Q E := by
  subst he
  have entered (hd : Keyed (pairs (held ++ added))) :
      enterAll ⟨pairs held⟩ (pairs added) = (⟨pairs (held ++ added)⟩, true) := by
    rw [pairs_append even] at hd ⊢
    exact enterAll_eq hd
  cases k with
  | list => cases hk
  | dict =>
    simp only [enterItems, ensures_bind, ensures_top, hs, ensures_get, ho, Kind.make,
      entered admits, ensures_setObject, if_true, ensures_pure]
    exact hq
  | ordered =>
    simp only [enterItems, ensures_bind, ensures_top, hs, ensures_get, ho, Kind.make,
      entered admits, ensures_setObject, if_true, ensures_pure]
    exact hq

theorem ensures_single {below : List Value} (even : k.width ∣ held.length)
    (width : added.length = k.width)
    (hs : m.stack.items = added.reverse ++ .object o :: below)
    (ho : m.heap.get? o = some (k.make held)) (admits : k.Admits (held ++ added))
    (hq : Q () (m.withContainer k o (held ++ added) below m.stack.suspended)) :
    (execute config c k.single).Ensures m Q E := by
  cases k with
  | list =>
    obtain ⟨v, rfl⟩ := List.length_eq_one_iff.1 width
    simp only [Kind.single, execute, ensures_bind, ensures_pop, hs, List.reverse_singleton,
      List.singleton_append]
    exact ensures_extendList rfl ho hq
  | dict | ordered =>
    obtain ⟨key, value, rfl⟩ := List.length_eq_two.1 width
    simp only [Kind.single, execute, ensures_bind, ensures_pop, hs, List.reverse_cons,
      List.reverse_nil, List.nil_append, List.cons_append]
    exact ensures_enterItems rfl rfl even rfl ho admits hq

theorem ensures_several {below : List Value} {suspended : List (List Value)}
    (even : k.width ∣ held.length) (width : k.width ∣ added.length)
    (hs : m.stack = { items := added.reverse, suspended := (.object o :: below) :: suspended })
    (ho : m.heap.get? o = some (k.make held)) (admits : k.Admits (held ++ added))
    (hq : Q () (m.withContainer k o (held ++ added) below suspended)) :
    (execute config c k.several).Ensures m Q E := by
  cases k with
  | list =>
    simp only [Kind.several, execute, ensures_bind, ensures_popMark, hs, List.reverse_reverse]
    exact ensures_extendList rfl ho hq
  | dict | ordered =>
    have paired : ¬ added.length % 2 = 1 := by
      obtain ⟨n, hn⟩ := width
      rw [hn, Kind.width]
      omega
    simp only [Kind.several, execute, ensures_bind, ensures_popMark, hs, List.reverse_reverse,
      if_neg paired]
    exact ensures_enterItems rfl rfl even rfl ho admits hq

end Machine

end Checkpoint.Pickle
