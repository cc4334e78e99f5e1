import Checkpoint.Proofs.Pickle.Acceptance
import Checkpoint.Proofs.Pickle.ObjectRoundTrip

/-! Mappings from names to tensors whose attributes are plain values.  They have no cycles, can be
written, and are shown by what is read again. -/

namespace Checkpoint.Pickle

namespace Graph

/-- The first number that is too large for any integer instruction. -/
def integerLimit : Nat := 2 ^ 2039

theorem signedWidth_le {n : Int} (low : -integerLimit ≤ n) (high : n < integerLimit) :
    Bytes.signedWidth n ≤ 255 :=
  Bytes.signedWidth_le (k := 2039) low high

/-- Whether an object is a scalar, or a tuple, list or mapping without attributes. -/
def IsPlain (g : Graph) (id : Nat) : Prop :=
  match g.node id with
  | .none | .bool _ | .float _ | .text _ | .tuple _ | .list _ => True
  | .int n => -integerLimit ≤ n ∧ n < integerLimit
  | .dict entries => g.KeysApart entries
  | .ordered entries attributes => g.KeysApart entries ∧ attributes = []
  | _ => False

theorem IsPlain.canWrite {g : Graph} {id : Nat} (h : g.IsPlain id) {tensors : Tensor → Prop}
    (short : ∀ t, g.node id = .text t → t.utf8.length < Encoder.wordLimit) :
    g.CanWrite tensors id := by
  cases hg : g.node id with
  | int n =>
    simp only [IsPlain, hg] at h
    simp only [CanWrite, hg]
    exact signedWidth_le h.1 h.2
  | text t =>
    simp only [CanWrite, hg]
    exact short t hg
  | ordered entries attributes =>
    simp only [IsPlain, hg] at h
    simp only [CanWrite, hg, h.2]
    exact List.forall_mem_nil _
  | bytes | tensor | storageClass | mapping | emptySet => simp only [IsPlain, hg] at h
  | none | bool | float | tuple | list | dict => simp only [CanWrite, hg]

/-- Plain objects with nothing but plain objects in them, and none in itself. -/
structure Plain (g : Graph) (id : Nat) : Prop where
  grounded : Acc (fun item id => g.Holds id item) id
  each : ∀ n, g.Reaches id n → g.IsPlain n

namespace Plain

variable {g : Graph} {id item : Nat}

theorem of_holds (h : g.Plain id) (hh : g.Holds id item) : g.Plain item where
  grounded := h.grounded.inv hh
  each n hn := h.each n (.head hh hn)

theorem of_reaches (h : g.Plain id) (hr : g.Reaches id item) : g.Plain item := by
  induction hr with
  | refl => exact h
  | tail _ hh ih => exact ih.of_holds hh

theorem acyclic (h : g.Plain id) : ¬ Relation.TransGen g.Holds id id := by
  have grounded := h.grounded
  induction grounded with
  | intro id _ ih =>
    intro cycle
    obtain ⟨item, hh, hr⟩ := Relation.TransGen.head'_iff.1 cycle
    exact ih item hh (h.of_holds hh) (.tail' hr hh)

theorem tensorFree (h : g.Plain id) : g.TensorFree id := by
  intro n t hr hg
  have := h.each n hr
  simp only [IsPlain, hg] at this

theorem of_items (isPlain : g.IsPlain id) (items : ∀ item, g.Holds id item → g.Plain item) :
    g.Plain id := by
  refine ⟨.intro id fun item hh => (items item hh).grounded, fun n hn => ?_⟩
  obtain rfl | ⟨item, hh, hr⟩ := Relation.ReflTransGen.cases_head hn
  · exact isPlain
  · exact (items item hh).each n hr

theorem of_text {t : Text} (hg : g.node id = .text t) : g.Plain id := by
  apply of_items
  · simp only [IsPlain, hg]
  · simp only [Holds, hg]
    exact fun _ hh => hh.elim

end Plain

theorem keysApart_of_texts {g : Graph} {entries : List (Nat × Nat)}
    (texts : ∀ e ∈ entries, g.isHashable g.nodes.size e.1 = true ∧ ∃ t, g.node e.1 = .text t)
    (apart : entries.Pairwise fun a b =>
      Value.same (g.key g.nodes.size a.1) (g.key g.nodes.size b.1) = false) : g.KeysApart entries where
  hashable e he := (texts e he).1
  tensorFree e he := by
    obtain ⟨_, t, ht⟩ := texts e he
    exact (Plain.of_text ht).tensorFree
  apart := apart

/-- No text in an object is too long for the field of its length. -/
structure ShortTexts (g : Graph) (top : Nat) : Prop where
  texts : ∀ id t, g.Reaches top id → g.node id = .text t → t.utf8.length < Encoder.wordLimit
  names : ∀ id entries attributes, g.Reaches top id → g.node id = .ordered entries attributes →
    ∀ a ∈ attributes, a.1.utf8.length < Encoder.wordLimit

/-- A mapping from names to tensors, with attributes that can be set and have plain values. -/
structure MapsTensors (g : Graph) (top : Nat) (tensors : List (Text × Tensor))
    (attributes : List (Text × Nat)) : Prop where
  entries : ∃ entries, g.node top = .ordered entries attributes ∧
    List.Forall₂ (fun e named => g.node e.1 = .text named.1 ∧ g.node e.2 = .tensor named.2)
      entries tensors
  distinct : (tensors.map Prod.fst).Nodup
  names : (attributes.map Prod.fst).Nodup ∧ ∀ a ∈ attributes, isAttributeName a.1 = true
  plain : ∀ a ∈ attributes, g.Plain a.2

namespace MapsTensors

variable {g : Graph} {top id : Nat} {tensors : List (Text × Tensor)} {attributes : List (Text × Nat)}

theorem of_holds (h : g.MapsTensors top tensors attributes) (hh : g.Holds top id) :
    (∃ named ∈ tensors, g.node id = .tensor named.2) ∨ g.Plain id := by
  obtain ⟨entries, hg, shown⟩ := h.entries
  simp only [Holds, hg] at hh
  obtain ⟨e, he, rfl | rfl⟩ | ha := hh
  · obtain ⟨named, _, hk, _⟩ := exists_of_forall₂ shown he
    exact .inr (Plain.of_text hk)
  · obtain ⟨named, hn, _, hv⟩ := exists_of_forall₂ shown he
    exact .inl ⟨named, hn, hv⟩
  · obtain ⟨a, hm, rfl⟩ := List.mem_map.1 ha
    exact .inr (h.plain a hm)

theorem not_holds_of_tensor {t : Tensor} (hg : g.node id = .tensor t) (item : Nat) :
    ¬ g.Holds id item := by
  simp only [Holds, hg, not_false_iff]

/-- What is in such a mapping: itself, tensors and plain values. -/
theorem reaches (h : g.MapsTensors top tensors attributes) (hr : g.Reaches top id) :
    id = top ∨ (∃ named ∈ tensors, g.node id = .tensor named.2) ∨ g.Plain id := by
  induction hr with
  | refl => exact .inl rfl
  | tail _ hh ih =>
    obtain rfl | ⟨named, _, ht⟩ | plain := ih
    · exact .inr (h.of_holds hh)
    · exact absurd hh (not_holds_of_tensor ht _)
    · exact .inr (.inr (plain.of_holds hh))

theorem acyclic (h : g.MapsTensors top tensors attributes) (hr : g.Reaches top id) :
    ¬ Relation.TransGen g.Holds id id := by
  obtain rfl | ⟨named, _, ht⟩ | plain := h.reaches hr
  · intro cycle
    obtain ⟨item, hh, hr⟩ := Relation.TransGen.head'_iff.1 cycle
    obtain ⟨named, _, ht⟩ | plain := h.of_holds hh
    · obtain rfl | ⟨next, hh, _⟩ := Relation.ReflTransGen.cases_head hr
      · exact not_holds_of_tensor ht _ hh
      · exact not_holds_of_tensor ht _ hh
    · exact (plain.of_reaches hr).acyclic cycle
  · intro cycle
    obtain ⟨item, hh, _⟩ := Relation.TransGen.head'_iff.1 cycle
    exact not_holds_of_tensor ht _ hh
  · exact plain.acyclic

theorem writable (h : g.MapsTensors top tensors attributes) {occurs : Tensor → Prop}
    (can : ∀ named ∈ tensors, Encoder.CanWrite g.memory occurs named.2) (short : g.ShortTexts top) :
    g.Writable occurs top where
  acyclic _ hr := h.acyclic hr
  each id hr := by
    obtain rfl | ⟨named, hn, ht⟩ | plain := h.reaches hr
    · obtain ⟨entries, hg, _⟩ := h.entries
      simp only [CanWrite, hg]
      exact short.names id entries attributes hr hg
    · simp only [CanWrite, ht]
      exact can named hn
    · exact (plain.each id .refl).canWrite fun t => short.texts id t hr

theorem keysApart {entries : List (Nat × Nat)} (shown : List.Forall₂
      (fun e named => g.node e.1 = .text named.1 ∧ g.node e.2 = .tensor named.2) entries tensors)
    (distinct : (tensors.map Prod.fst).Nodup) : g.KeysApart entries := by
  have text {e : Nat × Nat} {t : Text} (hk : g.node e.1 = .text t) :
      g.key g.nodes.size e.1 = .text t ∧ g.isHashable g.nodes.size e.1 = true := by
    have inside : e.1 < g.nodes.size := lt_size_of_node (by rw [hk]; nofun)
    obtain ⟨fuel, hf⟩ := Nat.exists_eq_succ_of_ne_zero (Nat.ne_of_gt (Nat.zero_lt_of_lt inside))
    rw [hf]
    simp only [key, isHashable, hk, and_self]
  have keys : entries.map (fun e => g.key g.nodes.size e.1) =
      tensors.map fun named => .text named.1 := by
    clear distinct
    induction shown with
    | nil => rfl
    | cons h _ ih => rw [List.map_cons, List.map_cons, (text h.1).1, ih]
  apply keysApart_of_texts
  · intro e he
    obtain ⟨named, _, hk, _⟩ := exists_of_forall₂ shown he
    exact ⟨(text hk).2, _, hk⟩
  · have apart : (entries.map fun e => g.key g.nodes.size e.1).Pairwise
        fun a b => Value.same a b = false := by
      rw [keys, List.pairwise_map]
      apply (List.pairwise_map.1 distinct).imp
      intro a b differ
      simpa [Value.same] using differ
    exact List.pairwise_map.1 apart

/-- Such a mapping can be shown by what is read again. -/
theorem restorable (h : g.MapsTensors top tensors attributes) : g.Restorable top := by
  obtain ⟨entries, hg, listed⟩ := h.entries
  refine ⟨fun _ _ hr _ => h.acyclic hr, ?_, ?_, ?_, ?_⟩
  · intro id entries' hr hn
    obtain rfl | ⟨named, _, ht⟩ | plain := h.reaches hr
    · cases hg.symm.trans hn
    · cases ht.symm.trans hn
    · simpa only [IsPlain, hn] using plain.each id .refl
  · intro id entries' attributes' hr hn
    obtain rfl | ⟨named, _, ht⟩ | plain := h.reaches hr
    · cases hg.symm.trans hn
      exact keysApart listed h.distinct
    · cases ht.symm.trans hn
    · have each := plain.each id .refl
      simp only [IsPlain, hn] at each
      exact each.1
  · intro id entries' attributes' hr hn
    obtain rfl | ⟨named, _, ht⟩ | plain := h.reaches hr
    · cases hg.symm.trans hn
      exact h.names
    · cases ht.symm.trans hn
    · have each := plain.each id .refl
      simp only [IsPlain, hn] at each
      obtain rfl := each.2
      exact ⟨.nil, List.forall_mem_nil _⟩
  · intro id name hr hn
    obtain rfl | ⟨named, _, ht⟩ | plain := h.reaches hr
    · cases hg.symm.trans hn
    · cases ht.symm.trans hn
    · have each := plain.each id .refl
      simp only [IsPlain, hn] at each

theorem mem_of_reaches (h : g.MapsTensors top tensors attributes) {t : Tensor}
    (hr : g.Reaches top id) (hn : g.node id = .tensor t) : ∃ named ∈ tensors, named.2 = t := by
  obtain ⟨entries, hg, _⟩ := h.entries
  obtain rfl | ⟨named, hm, ht⟩ | plain := h.reaches hr
  · cases hg.symm.trans hn
  · cases ht.symm.trans hn
    exact ⟨named, hm, rfl⟩
  · exact absurd hn (plain.tensorFree id t .refl)

end MapsTensors

end Graph

end Checkpoint.Pickle
