import Checkpoint.Pickle.Encoder
import Checkpoint.Proofs.Table
import Mathlib.Data.List.Duplicate
import Mathlib.Data.List.Infix

/-! What the instructions of a stream say about its memo.  A moment of the writing is an initial part
of what is written in the end; the memo at that moment is what the stores so far have made of it. -/

namespace Checkpoint.Pickle

/-- The number under which an instruction stores, if it does. -/
def Instruction.storedAt? : Instruction → Option Nat
  | .put n => some n.toNat
  | .longPut n => some n.toNat
  | _ => Option.none

/-- The number that an instruction fetches from, if it does. -/
def Instruction.fetchedAt? : Instruction → Option Nat
  | .get n => some n.toNat
  | .longGet n => some n.toNat
  | _ => Option.none

namespace Written

/-- The object that is stored, and its number. -/
def stored? (w : Written) : Option (Identity × Nat) :=
  w.object.bind fun o => w.instruction.storedAt?.map (o, ·)

end Written

/-- The memo after stores: each object has the number of its last store. -/
def memoAfter (written : List Written) : Table Identity Nat :=
  (written.filterMap Written.stored?).foldl (fun memo (o, n) => memo.insert o n) {}

/-- The objects that are stored, in order. -/
def storesOf (written : List Written) : List Identity :=
  (written.filterMap Written.stored?).map Prod.fst

/-- What a reader has under a number after stores: the object of the last one under it. -/
def slotAfter (written : List Written) (n : Nat) : Option Identity :=
  ((written.filterMap Written.stored?).reverse.find? (·.2 == n)).map Prod.fst

/-- Every store is under the number of entries, and every fetch is from the number of its object, in
the memo of its moment. -/
structure Numbered (written : List Written) : Prop where
  stored : ∀ before w n, before ++ [w] <+: written → w.instruction.storedAt? = some n →
    ∃ o, w.object = some o ∧ n = (memoAfter before).size
  fetched : ∀ before w n, before ++ [w] <+: written → w.instruction.fetchedAt? = some n →
    ∃ o, w.object = some o ∧ (memoAfter before).get? o = some n

/-- No two objects have one number. -/
def Distinct (memo : Table Identity Nat) : Prop :=
  ∀ o o' n, memo.get? o = some n → memo.get? o' = some n → o = o'

/-- At every moment the memo tells objects apart, and what a fetch reads has been stored for the
object that it is about. -/
structure MemoSound (written : List Written) : Prop where
  distinct : ∀ before, before <+: written → Distinct (memoAfter before)
  fetched : ∀ before w n, before ++ [w] <+: written → w.instruction.fetchedAt? = some n →
    ∃ o, w.object = some o ∧ slotAfter before n = some o

/-- Once an object has been stored twice, nothing else is stored. -/
def RepeatsAlone (stores : List Identity) : Prop :=
  ∀ before o, before ++ [o] <+: stores → ∀ o', List.Duplicate o' before → o = o'

section History

variable {written : List Written} {w : Written}

theorem memoAfter_concat (written : List Written) (w : Written) :
    memoAfter (written ++ [w]) = match w.stored? with
      | some (o, n) => (memoAfter written).insert o n
      | none => memoAfter written := by
  cases h : w.stored? <;> simp [memoAfter, h]

theorem storesOf_concat (written : List Written) (w : Written) :
    storesOf (written ++ [w]) = match w.stored? with
      | some (o, _) => storesOf written ++ [o]
      | none => storesOf written := by
  cases h : w.stored? <;> simp [storesOf, h]

theorem slotAfter_concat (written : List Written) (w : Written) (n : Nat) :
    slotAfter (written ++ [w]) n = match w.stored? with
      | some (o, n') => if n' = n then some o else slotAfter written n
      | none => slotAfter written n := by
  cases h : w.stored? with
  | none => simp [slotAfter, h]
  | some entry =>
    by_cases hn : entry.2 = n <;> simp [slotAfter, h, hn]

theorem Numbered.of_prefix {before : List Written} (h : Numbered written)
    (hp : before <+: written) : Numbered before where
  stored b w n hb := h.stored b w n (hb.trans hp)
  fetched b w n hb := h.fetched b w n (hb.trans hp)

theorem numbered_nil : Numbered [] := by
  constructor <;> intro before w n hp <;> simp at hp

theorem Numbered.concat (h : Numbered written)
    (hs : ∀ n, w.instruction.storedAt? = some n →
      ∃ o, w.object = some o ∧ n = (memoAfter written).size)
    (hf : ∀ n, w.instruction.fetchedAt? = some n →
      ∃ o, w.object = some o ∧ (memoAfter written).get? o = some n) :
    Numbered (written ++ [w]) := by
  constructor
  · intro before w' n hp
    rw [List.prefix_concat_iff] at hp
    obtain hp | hp := hp
    · obtain ⟨rfl, hw⟩ := List.append_inj' hp rfl
      cases hw
      exact hs n
    · exact h.stored before w' n hp
  · intro before w' n hp
    rw [List.prefix_concat_iff] at hp
    obtain hp | hp := hp
    · obtain ⟨rfl, hw⟩ := List.append_inj' hp rfl
      cases hw
      exact hf n
    · exact h.fetched before w' n hp

theorem Numbered.plain (h : Numbered written) (hs : w.instruction.storedAt? = none)
    (hf : w.instruction.fetchedAt? = none) : Numbered (written ++ [w]) := by
  apply h.concat
  · intro n hn
    rw [hs] at hn
    cases hn
  · intro n hn
    rw [hf] at hn
    cases hn

theorem Numbered.number_eq (h : Numbered (written ++ [w])) {o : Identity} {n : Nat}
    (hw : w.stored? = some (o, n)) : n = (memoAfter written).size := by
  simp only [Written.stored?, Option.bind_eq_some_iff, Option.map_eq_some_iff, Prod.mk.injEq] at hw
  obtain ⟨_, _, n', hn, _, rfl⟩ := hw
  obtain ⟨_, _, rfl⟩ := h.stored written w n' (List.prefix_refl _) hn
  rfl

theorem contains_memoAfter (written : List Written) (o : Identity) :
    (memoAfter written).contains o = true ↔ o ∈ storesOf written := by
  induction written using List.reverseRecOn with
  | nil => simp [memoAfter, storesOf, Table.contains]
  | append_singleton written w ih =>
    rw [memoAfter_concat, storesOf_concat]
    cases w.stored? with
    | none => exact ih
    | some entry =>
      simp only [Table.contains_insert, Bool.or_eq_true, beq_iff_eq, List.mem_append,
        List.mem_singleton, ih]
      tauto

theorem size_memoAfter_concat {o : Identity} {n : Nat} (hw : w.stored? = some (o, n)) :
    (memoAfter (written ++ [w])).size =
      if o ∈ storesOf written then (memoAfter written).size else (memoAfter written).size + 1 := by
  rw [memoAfter_concat, hw]
  simp only [Table.size_insert, contains_memoAfter]

theorem get?_memoAfter_concat {o : Identity} {n : Nat} (hw : w.stored? = some (o, n))
    (o' : Identity) :
    (memoAfter (written ++ [w])).get? o' =
      if o = o' then some n else (memoAfter written).get? o' := by
  rw [memoAfter_concat, hw]
  simp only [Table.get?_insert, beq_iff_eq]

theorem duplicate_concat_iff {o o' : Identity} {stores : List Identity} :
    List.Duplicate o' (stores ++ [o]) ↔ List.Duplicate o' stores ∨ (o = o' ∧ o ∈ stores) := by
  simp only [List.duplicate_iff_two_le_count, List.count_append, List.count_singleton, beq_iff_eq]
  by_cases h : o = o'
  · subst h
    have : 0 < List.count o stores ↔ o ∈ stores := List.count_pos_iff
    simp only [if_true, true_and, ← this]
    omega
  · simp [h]

theorem RepeatsAlone.of_prefix {before stores : List Identity} (h : RepeatsAlone stores)
    (hp : before <+: stores) : RepeatsAlone before :=
  fun b o hb => h b o (hb.trans hp)

theorem repeatsAlone_of_nodup {stores : List Identity} (h : stores.Nodup) :
    RepeatsAlone stores := by
  intro before o hp o' hd
  have hb : before.Nodup := h.sublist ((List.prefix_append before [o]).trans hp).sublist
  exact absurd hb hd.not_nodup

end History

/-- The memo while nothing follows a repetition: numbers are below the number of entries, and only
an object that has been stored twice has that number itself. -/
structure Told (written : List Written) : Prop where
  distinct : Distinct (memoAfter written)
  bound : ∀ o n, (memoAfter written).get? o = some n →
    n < (memoAfter written).size ∨ List.Duplicate o (storesOf written)
  repeated : ∀ o, List.Duplicate o (storesOf written) →
    (memoAfter written).get? o = some (memoAfter written).size

section Soundness

variable {written : List Written} {w : Written} {o : Identity}

theorem told_nil : Told [] := by
  constructor
  · intro o o' n ho
    simp [memoAfter, Table.get?] at ho
  · intro o n ho
    simp [memoAfter, Table.get?] at ho
  · intro o ho
    simp [storesOf] at ho

theorem Told.concat (h : Told written) (hw : w.stored? = some (o, (memoAfter written).size))
    (alone : ∀ o', List.Duplicate o' (storesOf written) → o = o') : Told (written ++ [w]) := by
  have hs : storesOf (written ++ [w]) = storesOf written ++ [o] := by
    rw [storesOf_concat, hw]
  have older : ∀ o' n, o ≠ o' → (memoAfter written).get? o' = some n →
      n < (memoAfter written).size := by
    intro o' n ho hn
    obtain hlt | hd := h.bound o' n hn
    · exact hlt
    · exact absurd (alone o' hd) ho
  constructor
  · intro a b n ha hb
    rw [get?_memoAfter_concat hw] at ha hb
    split at ha <;> split at hb
    next hoa hob => rw [← hoa, ← hob]
    next hoa hob =>
      cases ha
      exact absurd (older b _ hob hb) (lt_irrefl _)
    next hoa hob =>
      cases hb
      exact absurd (older a _ hoa ha) (lt_irrefl _)
    next hoa hob => exact h.distinct a b n ha hb
  · intro a n ha
    rw [get?_memoAfter_concat hw] at ha
    rw [size_memoAfter_concat hw, hs, duplicate_concat_iff]
    split at ha
    next hoa =>
      cases ha
      by_cases ho : o ∈ storesOf written
      · exact .inr (.inr ⟨hoa, ho⟩)
      · rw [if_neg ho]
        exact .inl (Nat.lt_succ_self _)
    next hoa =>
      left
      have := older a n hoa ha
      split <;> omega
  · intro a ha
    rw [hs, duplicate_concat_iff] at ha
    have hoa : o = a := ha.elim (alone a) And.left
    have ho : o ∈ storesOf written := ha.elim (fun hd => hoa ▸ hd.mem) And.right
    rw [get?_memoAfter_concat hw, size_memoAfter_concat hw, if_pos hoa, if_pos ho]

theorem memoAfter_concat_of_none (hw : w.stored? = none) :
    memoAfter (written ++ [w]) = memoAfter written := by
  rw [memoAfter_concat, hw]

theorem storesOf_concat_of_none (hw : w.stored? = none) :
    storesOf (written ++ [w]) = storesOf written := by
  rw [storesOf_concat, hw]

theorem told_of_repeatsAlone (hn : Numbered written) (h : RepeatsAlone (storesOf written)) :
    Told written := by
  induction written using List.reverseRecOn with
  | nil => exact told_nil
  | append_singleton written w ih =>
    cases hw : w.stored? with
    | none =>
      rw [storesOf_concat_of_none hw] at h
      obtain ⟨distinct, bound, repeated⟩ := ih (hn.of_prefix (List.prefix_append _ _)) h
      constructor <;> simpa only [memoAfter_concat_of_none hw, storesOf_concat_of_none hw]
    | some entry =>
      obtain ⟨o, n⟩ := entry
      obtain rfl := hn.number_eq hw
      rw [storesOf_concat, hw] at h
      have before := h.of_prefix (List.prefix_append _ _)
      exact (ih (hn.of_prefix (List.prefix_append _ _)) before).concat hw
        (h _ o (List.prefix_refl _))

/-- Two objects with one number show that nothing follows a repetition. -/
theorem repeatsAlone_of_distinct (hn : Numbered written)
    (h : ∀ before, before <+: written → Distinct (memoAfter before)) :
    RepeatsAlone (storesOf written) := by
  induction written using List.reverseRecOn with
  | nil =>
    intro before o hp
    simp [storesOf] at hp
  | append_singleton written w ih =>
    have hn' := hn.of_prefix (List.prefix_append written [w])
    have alone := ih hn' fun before hp => h before (hp.trans (List.prefix_append _ _))
    cases hw : w.stored? with
    | none => rwa [storesOf_concat_of_none hw]
    | some entry =>
      obtain ⟨o, n⟩ := entry
      obtain rfl := hn.number_eq hw
      rw [storesOf_concat, hw]
      intro before o₁ hp
      rw [List.prefix_concat_iff] at hp
      obtain hp | hp := hp
      · obtain ⟨rfl, ho⟩ := List.append_inj' hp rfl
        cases ho
        intro o' hd
        by_contra hne
        have old := (told_of_repeatsAlone hn' alone).repeated o' hd
        have now := h _ (List.prefix_refl _) o o' (memoAfter written).size
        rw [get?_memoAfter_concat hw, get?_memoAfter_concat hw, if_pos rfl, if_neg hne] at now
        exact hne (now rfl old)
      · exact alone before o₁ hp

theorem slotAfter_eq (h : ∀ before, before <+: written → Distinct (memoAfter before)) {n : Nat}
    (ho : (memoAfter written).get? o = some n) : slotAfter written n = some o := by
  induction written using List.reverseRecOn with
  | nil => simp [memoAfter, Table.get?] at ho
  | append_singleton written w ih =>
    have ih := ih fun before hp => h before (hp.trans (List.prefix_append _ _))
    cases hw : w.stored? with
    | none =>
      rw [memoAfter_concat_of_none hw] at ho
      rw [slotAfter_concat, hw]
      exact ih ho
    | some entry =>
      obtain ⟨o₁, n₁⟩ := entry
      have stored : (memoAfter (written ++ [w])).get? o₁ = some n₁ := by
        rw [get?_memoAfter_concat hw, if_pos rfl]
      rw [slotAfter_concat, hw]
      by_cases hnn : n₁ = n
      · subst hnn
        rw [h _ (List.prefix_refl _) o o₁ n₁ ho stored]
        exact if_pos rfl
      · have hne : o₁ ≠ o := by
          rintro rfl
          exact hnn (Option.some.inj (stored.symm.trans ho))
        rw [get?_memoAfter_concat hw, if_neg hne] at ho
        exact (if_neg hnn).trans (ih ho)

/-- The memo is sound when and only when nothing follows a repetition. -/
theorem memoSound_iff (hn : Numbered written) :
    MemoSound written ↔ RepeatsAlone (storesOf written) := by
  constructor
  · intro h
    exact repeatsAlone_of_distinct hn h.distinct
  · intro h
    have distinct (before : List Written) (hp : before <+: written) :
        Distinct (memoAfter before) := by
      have alone := h.of_prefix ((hp.filterMap Written.stored?).map Prod.fst)
      exact (told_of_repeatsAlone (hn.of_prefix hp) alone).distinct
    refine ⟨distinct, ?_⟩
    intro before w n hp hf
    obtain ⟨o, ho, hn⟩ := hn.fetched before w n hp hf
    have hb := (List.prefix_append before [w]).trans hp
    exact ⟨o, ho, slotAfter_eq (fun b hb' => distinct b (hb'.trans hb)) hn⟩

end Soundness

end Checkpoint.Pickle
