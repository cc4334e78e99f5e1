import Checkpoint.Error
import Checkpoint.Insertion
import Mathlib.Data.List.Basic
import Mathlib.Data.List.Sort

/-! Sorting by insertion.  The items of the result are those that were given; where the comparison is a
total order, sorting never fails, and the result is the sorted list. -/

namespace Checkpoint.Insertion

variable {α β ε : Type} {less : α → α → Except ε Bool}

section Items

variable {falls : Bool} {last x : α} {taken taken' items rest sorted sorted' : List α}

theorem append_run (h : run less falls last taken items = .ok (taken', rest)) :
    taken'.reverse ++ rest = taken.reverse ++ items := by
  induction items generalizing last taken with
  | nil =>
    cases h
    rfl
  | cons x items ih =>
    rw [run, bind_eq_ok] at h
    obtain ⟨falling, -, h⟩ := h
    split at h
    · rw [ih h, List.reverse_cons, List.append_assoc, List.singleton_append]
    · cases h
      rfl

theorem perm_insert (h : insert less sorted x = .ok sorted') : sorted'.Perm (x :: sorted) := by
  rw [insert, bind_eq_ok] at h
  obtain ⟨n, -, h⟩ := h
  cases h
  have middle : (sorted.take n ++ x :: sorted.drop n).Perm (x :: (sorted.take n ++ sorted.drop n)) :=
    List.perm_middle
  rwa [List.take_append_drop] at middle

theorem perm_insertAll (h : items.foldlM (insert less) sorted = .ok sorted') :
    sorted'.Perm (sorted ++ items) := by
  induction items generalizing sorted with
  | nil =>
    cases h
    rw [List.append_nil]
  | cons x items ih =>
    rw [List.foldlM_cons, bind_eq_ok] at h
    obtain ⟨inserted, first, h⟩ := h
    have behind : (x :: sorted ++ items).Perm (sorted ++ x :: items) := List.perm_middle.symm
    exact ((ih h).trans ((perm_insert first).append_right items)).trans behind

/-- Sorting loses no item and adds none. -/
theorem perm_sort (h : sort less items = .ok sorted) : sorted.Perm items := by
  unfold sort at h
  split at h
  · next x y rest =>
    rw [bind_eq_ok] at h
    obtain ⟨falls, -, h⟩ := h
    rw [bind_eq_ok] at h
    obtain ⟨⟨taken, left⟩, first, h⟩ := h
    have whole := append_run first
    have order : (if falls then taken else taken.reverse).Perm taken.reverse := by
      split
      · exact (List.reverse_perm taken).symm
      · exact .refl _
    have perm := (perm_insertAll h).trans (order.append_right left)
    rwa [whole] at perm
  · cases h
    exact .refl _

end Items

section Order

variable {le : α → α → Bool} {falls : Bool} {last x : α} {taken sorted : List α}

/-- Items that each stand to the one before them as the next item does to the last one. -/
theorem exists_run {r : α → α → Prop} (items : List α) (trans : ∀ a b c, r a b → r b c → r a c)
    (decides : ∀ a b, ∃ answer, less a b = .ok answer) (falling : ∀ a b, less a b = .ok falls → r a b)
    (ordered : (last :: taken).Pairwise r) : ∃ taken' rest,
      run less falls last (last :: taken) items = .ok (taken', rest) ∧ taken'.Pairwise r := by
  induction items generalizing last taken with
  | nil => exact ⟨_, _, rfl, ordered⟩
  | cons x items ih =>
    obtain ⟨answer, compared⟩ := decides x last
    rw [run, compared]
    change ∃ taken' rest, (if answer = falls then _ else _) = _ ∧ _
    split
    · next same =>
      have below := falling x last (same ▸ compared)
      apply ih
      refine List.pairwise_cons.2 ⟨?_, ordered⟩
      exact List.forall_mem_cons.2
        ⟨below, fun y hy => trans x last y below ((List.pairwise_cons.1 ordered).1 y hy)⟩
    · exact ⟨_, _, rfl, ordered⟩

/-- One step of the search goes on in front of the item in the middle or behind it. -/
theorem place_step {low high : Nat} {y : α} {greater : Bool} (wide : low < high)
    (found : sorted[low + (high - low) / 2]? = some y) (compared : less x y = .ok greater) :
    place less x sorted low high = if greater then place less x sorted low (low + (high - low) / 2)
      else place less x sorted (low + (high - low) / 2 + 1) high := by
  rw [place, if_pos wide]
  dsimp only
  rw [found]
  dsimp only
  rw [compared]
  cases greater <;> rfl

variable (trans : ∀ a b c, le a b = true → le b c = true → le a c = true)
  (total : ∀ a b, (le a b || le b a) = true) (compares : ∀ a b, less a b = .ok (!le b a))

include trans compares total in
/-- The place is behind what is not greater and in front of what is. -/
theorem exists_place (ordered : sorted.Pairwise fun a b => le a b = true) {low high : Nat}
    (within : high ≤ sorted.length) (ascending : low ≤ high)
    (below : ∀ i (h : i < sorted.length), i < low → le sorted[i] x = true)
    (above : ∀ i (h : i < sorted.length), high ≤ i → le x sorted[i] = true) :
    ∃ n, place less x sorted low high = .ok n ∧
      (∀ i (h : i < sorted.length), i < n → le sorted[i] x = true) ∧
      ∀ i (h : i < sorted.length), n ≤ i → le x sorted[i] = true := by
  have later {i j : Nat} (hi : i < j) (hj : j < sorted.length) : le sorted[i] sorted[j] = true :=
    List.pairwise_iff_getElem.1 ordered i j _ hj hi
  -- Each step moves one bound; the order carries what is known of its neighbour to all behind it.
  induction low, high using place.induct less x sorted with
  | case1 low high wide middle none =>
    rw [List.getElem?_eq_none_iff] at none
    omega
  | case2 low high wide middle y found e failed =>
    rw [compares] at failed
    cases failed
  | case3 low high wide middle y found greater ih =>
    obtain ⟨hm, rfl⟩ := List.getElem?_eq_some_iff.1 found
    have step : place less x sorted low high = place less x sorted low middle :=
      place_step wide (List.getElem?_eq_getElem hm) greater
    have behind : le x sorted[middle] = true := by
      rw [compares, Except.ok.injEq, Bool.not_eq_true'] at greater
      simpa only [greater, Bool.or_false] using total x sorted[middle]
    rw [step]
    refine ih (by omega) (by omega) below (fun i hi past => ?_) later
    obtain rfl | past := Nat.eq_or_lt_of_le past
    · exact behind
    · exact trans _ _ _ behind (later past hi)
  | case4 low high wide middle y found greater ih =>
    obtain ⟨hm, rfl⟩ := List.getElem?_eq_some_iff.1 found
    have step : place less x sorted low high = place less x sorted (middle + 1) high :=
      place_step wide (List.getElem?_eq_getElem hm) greater
    have front : le sorted[middle] x = true := by
      rw [compares, Except.ok.injEq, Bool.not_eq_false'] at greater
      exact greater
    rw [step]
    refine ih within (by omega) (fun i hi before => ?_) above later
    obtain rfl | before := Nat.eq_or_lt_of_le (Nat.le_of_lt_succ before)
    · exact front
    · exact trans _ _ _ (later before hm) front
  | case5 low high closed =>
    refine ⟨low, ?_, below, fun i hi past => above i hi (by omega)⟩
    rw [place, if_neg closed]

include trans compares total in
theorem exists_insert (ordered : sorted.Pairwise fun a b => le a b = true) :
    ∃ sorted', insert less sorted x = .ok sorted' ∧ sorted'.Pairwise fun a b => le a b = true := by
  obtain ⟨n, found, front, behind⟩ := exists_place (x := x) trans total compares ordered (Nat.le_refl _)
    (Nat.zero_le _) (fun i _ before => absurd before (Nat.not_lt_zero i))
    fun i hi past => absurd hi (Nat.not_lt.2 past)
  refine ⟨sorted.take n ++ x :: sorted.drop n, ?_, ?_⟩
  · rw [insert, found]
    rfl
  · have before : ∀ a ∈ sorted.take n, le a x = true := by
      intro a ha
      obtain ⟨i, hi, rfl⟩ := List.mem_take_iff_getElem.1 ha
      exact front i _ (by omega)
    have after : ∀ b ∈ sorted.drop n, le x b = true := by
      intro b hb
      obtain ⟨i, hi, rfl⟩ := List.mem_drop_iff_getElem.1 hb
      exact behind (n + i) _ (Nat.le_add_right ..)
    refine List.pairwise_append.2 ⟨ordered.sublist (List.take_sublist ..), ?_, fun a ha b hb => ?_⟩
    · exact List.pairwise_cons.2 ⟨after, ordered.sublist (List.drop_sublist ..)⟩
    · obtain rfl | hb := List.mem_cons.1 hb
      · exact before a ha
      · exact trans _ _ _ (before a ha) (after b hb)

include trans compares total in
theorem exists_insertAll (items : List α) (ordered : sorted.Pairwise fun a b => le a b = true) :
    ∃ sorted', items.foldlM (insert less) sorted = .ok sorted' ∧
      sorted'.Pairwise fun a b => le a b = true := by
  induction items generalizing sorted with
  | nil => exact ⟨sorted, rfl, ordered⟩
  | cons x items ih =>
    obtain ⟨inserted, first, ordered⟩ := exists_insert (x := x) trans total compares ordered
    obtain ⟨sorted', rest, ordered⟩ := ih ordered
    refine ⟨sorted', ?_, ordered⟩
    rw [List.foldlM_cons, first]
    exact rest

include trans compares total in
/-- With a total order sorting is done, and puts the items in order. -/
theorem exists_sort (items : List α) : ∃ sorted, sort less items = .ok sorted ∧
    sorted.Pairwise fun a b => le a b = true := by
  have decides (a b : α) : ∃ answer, less a b = .ok answer := ⟨_, compares a b⟩
  unfold sort
  split
  · next x y rest =>
    rw [compares]
    cases falls : le x y with
    | false =>
      have falling (a b : α) (h : less a b = .ok true) : le a b = true := by
        rw [compares, Except.ok.injEq, Bool.not_eq_true'] at h
        simpa only [h, Bool.or_false] using total a b
      have start : [y, x].Pairwise fun a b => le a b = true :=
        List.pairwise_pair.2 (by simpa only [falls, Bool.false_or] using total x y)
      obtain ⟨taken, left, ran, ordered⟩ := exists_run rest trans decides falling start
      obtain ⟨sorted, inserted, ordered⟩ := exists_insertAll trans total compares left ordered
      refine ⟨sorted, ?_, ordered⟩
      change (run less true y [y, x] rest >>= _) = _
      rw [ran]
      exact inserted
    | true =>
      have rising (a b : α) (h : less a b = .ok false) : le b a = true := by
        rwa [compares, Except.ok.injEq, Bool.not_eq_false'] at h
      have start : [y, x].Pairwise fun a b => le b a = true := List.pairwise_pair.2 falls
      obtain ⟨taken, left, ran, ordered⟩ := exists_run rest
        (fun a b c first second => trans c b a second first) decides rising start
      obtain ⟨sorted, inserted, ordered⟩ := exists_insertAll trans total compares left
        (List.pairwise_reverse.2 ordered)
      refine ⟨sorted, ?_, ordered⟩
      change (run less false y [y, x] rest >>= _) = _
      rw [ran]
      exact inserted
  · next short =>
    refine ⟨items, rfl, ?_⟩
    match items, short with
    | [], _ => exact .nil
    | [x], _ => exact List.pairwise_singleton _ x
    | x :: y :: rest, short => exact absurd rfl (short x y rest)

include trans compares total in
/-- With a total order in which no two of the items are alike there is one result, however it is
found. -/
theorem sort_eq_mergeSort {items : List α}
    (antisymm : ∀ a ∈ items, ∀ b ∈ items, le a b = true → le b a = true → a = b) :
    sort less items = .ok (items.mergeSort le) := by
  obtain ⟨sorted, done, ordered⟩ := exists_sort trans total compares items
  have items' := perm_sort done
  have merged := List.mergeSort_perm items le
  have unique : sorted = items.mergeSort le := by
    refine List.Perm.eq_of_pairwise (fun a b ha hb => ?_) ordered
      (List.pairwise_mergeSort trans total items) (items'.trans merged.symm)
    exact antisymm a (items'.mem_iff.1 ha) b (merged.mem_iff.1 hb)
  rw [done, unique]

end Order

section Images

/-! Items that are compared by their images are sorted as their images are. -/

variable {less' : β → β → Except ε Bool} {f : α → β} (same : ∀ a b, less' (f a) (f b) = less a b)

include same

theorem run_map {falls : Bool} {last : α} {taken items : List α} :
    run less' falls (f last) (taken.map f) (items.map f) =
      (run less falls last taken items).map fun (taken, rest) => (taken.map f, rest.map f) := by
  induction items generalizing last taken with
  | nil => rfl
  | cons x items ih =>
    rw [List.map_cons, run, run, same]
    cases less x last with
    | error e => rfl
    | ok answer =>
      change (if answer = falls then _ else _) = (if answer = falls then _ else _ : Except ε _).map _
      split
      · exact @ih x (x :: taken)
      · rfl

theorem place_map {x : α} {sorted : List α} {low high : Nat} :
    place less' (f x) (sorted.map f) low high = place less x sorted low high := by
  fun_induction place less x sorted low high with
  | case1 low high wide middle none =>
    rw [place, if_pos wide]
    simp only [List.getElem?_map, none, Option.map_none, middle]
  | case2 low high wide middle y found e failed =>
    rw [place, if_pos wide]
    simp only [List.getElem?_map, found, Option.map_some, same, failed, middle]
  | case3 low high wide middle y found greater ih =>
    rw [place, if_pos wide]
    simp only [List.getElem?_map, found, Option.map_some, same, greater, ih, middle]
  | case4 low high wide middle y found greater ih =>
    rw [place, if_pos wide]
    simp only [List.getElem?_map, found, Option.map_some, same, greater, ih, middle]
  | case5 low high closed => rw [place, if_neg closed]

theorem insert_map {x : α} {sorted : List α} :
    insert less' (sorted.map f) (f x) = (insert less sorted x).map (List.map f) := by
  rw [insert, insert, List.length_map, place_map same]
  cases place less x sorted 0 sorted.length with
  | error e => rfl
  | ok n =>
    change Except.ok _ = Except.ok _
    rw [List.map_append, List.map_take, List.map_cons, List.map_drop]

theorem insertAll_map {items sorted : List α} : (items.map f).foldlM (insert less') (sorted.map f) =
    (items.foldlM (insert less) sorted).map (List.map f) := by
  induction items generalizing sorted with
  | nil => rfl
  | cons x items ih =>
    rw [List.map_cons, List.foldlM_cons, List.foldlM_cons, insert_map same]
    cases insert less sorted x with
    | error e => rfl
    | ok inserted => exact ih

theorem sort_map (items : List α) : sort less' (items.map f) = (sort less items).map (List.map f) := by
  match items with
  | [] => rfl
  | [x] => rfl
  | x :: y :: rest =>
    rw [List.map_cons, List.map_cons, sort, sort, same]
    cases less y x with
    | error e => rfl
    | ok falls =>
      change (run less' falls (f y) ([y, x].map f) (rest.map f) >>= _) = _
      rw [run_map same]
      change _ = (run less falls y [y, x] rest >>= _ : Except ε _).map _
      cases run less falls y [y, x] rest with
      | error e => rfl
      | ok ran =>
        change List.foldlM (insert less') (if falls = true then ran.1.map f else (ran.1.map f).reverse) _ = _
        rw [← List.map_reverse, ← apply_ite (List.map f), insertAll_map same]
        rfl

end Images

end Checkpoint.Insertion
