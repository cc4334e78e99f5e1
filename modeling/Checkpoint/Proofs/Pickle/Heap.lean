import Checkpoint.Pickle.Constructor

/-! What is in a heap after an object has been made or changed, and what calls of constructors make. -/

namespace Checkpoint.Pickle

namespace Heap

variable {h : Heap} {o o' : Nat} {object object' : Object}

theorem get?_lt_size (ho : h.get? o = some object) : o < h.objects.size :=
  (Array.getElem?_eq_some_iff.1 ho).1

@[simp] theorem size_set (h : Heap) (o : Nat) (object : Object) :
    (h.set o object).objects.size = h.objects.size :=
  Array.size_setIfInBounds

theorem get?_set_self (ho : o < h.objects.size) (object : Object) :
    (h.set o object).get? o = some object := by
  simp [set, get?, ho]

theorem get?_set_of_ne (ho : o ≠ o') (object : Object) : (h.set o object).get? o' = h.get? o' :=
  Array.getElem?_setIfInBounds_ne ho

theorem set_set (h : Heap) (o : Nat) (a b : Object) : (h.set o a).set o b = h.set o b := by
  simp [set]

theorem set_of_get? (ho : h.get? o = some object) : h.set o object = h := by
  obtain ⟨hlt, rfl⟩ := Array.getElem?_eq_some_iff.1 ho
  rw [set, Array.setIfInBounds_def, dif_pos hlt, Array.set_getElem_self]

@[simp] theorem size_allocate (h : Heap) (object : Object) :
    (h.allocate object).2.objects.size = h.objects.size + 1 :=
  Array.size_push _

theorem get?_allocate_self (h : Heap) (object : Object) :
    (h.allocate object).2.get? h.objects.size = some object := by
  simp [allocate, get?]

theorem get?_allocate_of_lt (ho : o < h.objects.size) (object : Object) :
    (h.allocate object).2.get? o = h.get? o := by
  simp [allocate, get?, Array.getElem?_push, Nat.ne_of_lt ho]

theorem eq_or_get?_of_set (hs : (h.set o object).get? o' = some object') :
    object' = object ∨ h.get? o' = some object' := by
  by_cases ho : o = o'
  · subst ho
    have hlt := get?_lt_size hs
    rw [size_set] at hlt
    rw [get?_set_self hlt] at hs
    exact .inl (Option.some.inj hs).symm
  · rw [get?_set_of_ne ho] at hs
    exact .inr hs

theorem eq_or_get?_of_allocate (hs : (h.allocate object).2.get? o = some object') :
    object' = object ∨ h.get? o = some object' := by
  obtain hlt | rfl | hgt := Nat.lt_trichotomy o h.objects.size
  · rw [get?_allocate_of_lt hlt] at hs
    exact .inr hs
  · rw [get?_allocate_self] at hs
    exact .inl (Option.some.inj hs).symm
  · have hlt := get?_lt_size hs
    rw [size_allocate] at hlt
    exact absurd hgt (Nat.not_lt.2 (Nat.lt_succ_iff.1 hlt))

end Heap

namespace Constructor

variable {h h' : Heap} {arguments : List Value} {birth : Nat} {v : Value}

/-- What a call makes: a new ordered mapping, of no pairs or of those in a list, or a tensor, for which
nothing is put on the heap. -/
inductive Made (h : Heap) (arguments : List Value) : Value → Heap → Prop
  | empty : Made h arguments (.object h.objects.size) (h.allocate (.ordered {} {})).2
  | ordered {id : Nat} {items : List Value} {pairs : List (Value × Value)} {entries : Table Value Value} :
    h.get? id = some (.list items) → items.mapM h.pair? = some pairs →
    enterAll {} pairs = (entries, true) →
    Made h arguments (.object h.objects.size) (h.allocate (.ordered entries {})).2
  | tensor {r : PersistentRef} {t : TensorRef} : .persistent r ∈ arguments → t.storageKey = r.key →
    t.dtype = r.dtype → Made h arguments (.tensor t) h
  | parameter {t : TensorRef} {requiresGrad : Bool} : .tensor t ∈ arguments →
    Made h arguments (.tensor { t with requiresGrad }) h

theorem of_tensorRef {storage offset size stride requiresGrad : Value} {t : TensorRef}
    (h : tensorRef h storage offset size stride requiresGrad = .ok t) :
    ∃ r, storage = .persistent r ∧ t.storageKey = r.key ∧ t.dtype = r.dtype := by
  unfold tensorRef at h
  split at h
  · next r =>
    split at h
    · split at h
      · obtain ⟨shape, -, h⟩ := bind_eq_ok.1 h
        obtain ⟨stride, -, h⟩ := bind_eq_ok.1 h
        cases h
        exact ⟨r, rfl, rfl, rfl⟩
      · cases h
    · cases h
  · cases h

theorem made_of_tensorRef {storage offset size stride requiresGrad : Value} (given : storage ∈ arguments)
    (made : (tensorRef h storage offset size stride requiresGrad >>= fun t =>
      return (Value.tensor t, h)) = .ok (v, h')) : Made h arguments v h' := by
  obtain ⟨t, described, returned⟩ := bind_eq_ok.1 made
  obtain ⟨r, rfl, key, dtype⟩ := of_tensorRef described
  cases returned
  exact .tensor given key dtype

theorem made_of_buildTensor {storage offset size stride requiresGrad hooks metadata : Value}
    (given : storage ∈ arguments)
    (made : buildTensor h storage offset size stride requiresGrad hooks metadata = .ok (v, h')) :
    Made h arguments v h' := by
  unfold buildTensor at made
  split at made
  · cases made
  · split at made
    · cases made
    · exact made_of_tensorRef given made

theorem made_of_buildOrdered (made : buildOrdered h arguments birth = .ok (v, h')) :
    Made h arguments v h' := by
  unfold buildOrdered at made
  dsimp only at made
  split at made
  · cases made
    exact .empty
  · split at made
    · next items listed =>
      split at made
      · next pairs paired =>
        split at made
        · next entries entered =>
          cases made
          exact .ordered listed paired entered
        · cases made
      · cases made
    · cases made
  · cases made

/-- All that a call can come to, if it is not refused. -/
theorem made_of_call {c : Constructor} (called : c.call h arguments birth = .ok (v, h')) :
    Made h arguments v h' := by
  unfold call at called
  split at called
  case h_1 => exact made_of_buildOrdered called
  case h_2 => exact made_of_tensorRef List.mem_cons_self called
  case h_3 =>
    split at called
    · exact made_of_buildTensor List.mem_cons_self called
    · exact made_of_buildTensor List.mem_cons_self called
    · cases called
  case h_4 =>
    split at called
    · split at called
      · cases called
      · split at called
        · cases called
          exact .parameter List.mem_cons_self
        · cases called
    · cases called
  case h_5 => split at called <;> cases called

end Constructor

end Checkpoint.Pickle
