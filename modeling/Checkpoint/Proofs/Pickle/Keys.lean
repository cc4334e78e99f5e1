import Checkpoint.Pickle.Collection
import Checkpoint.Proofs.Pickle.Container
import Checkpoint.Proofs.Pickle.Image
import Checkpoint.Proofs.Pickle.MemoSoundness

/-! Keys.  What shows a key can be one, and two of them that are the same show keys that are the
same: births tell floats and tuples apart at most as well as the objects that they show. -/

namespace Checkpoint.Pickle

namespace Value

mutual

/-- A value with other births. -/
def renamed (f : Nat → Nat) : Value → Value
  | float x birth => float x (f birth)
  | tuple items birth => tuple (allRenamed f items) (f birth)
  | v => v

def allRenamed (f : Nat → Nat) : List Value → List Value
  | [] => []
  | v :: rest => renamed f v :: allRenamed f rest

end

mutual

theorem same_renamed (f : Nat → Nat) {v v' : Value} (h : same v v' = true) :
    same (v.renamed f) (v'.renamed f) = true := by
  cases v <;> cases v' <;> simp_all [renamed, same, integer?]
  · exact h.imp_left (congrArg f)
  · exact h.imp (congrArg f) (sameAll_renamed f)

theorem sameAll_renamed (f : Nat → Nat) {vs vs' : List Value} (h : sameAll vs vs' = true) :
    sameAll (allRenamed f vs) (allRenamed f vs') = true := by
  cases vs <;> cases vs' <;> simp_all [allRenamed, sameAll]
  exact ⟨same_renamed f h.1, sameAll_renamed f h.2⟩

end

end Value

namespace Graph

/-- No tensor is an object, or stands in it. -/
def TensorFree (g : Graph) (id : Nat) : Prop := ∀ n t, g.Reaches id n → g.node n ≠ .tensor t

/-- The keys of entries can be keys and are apart. -/
structure KeysApart (g : Graph) (entries : List (Nat × Nat)) : Prop where
  hashable : ∀ e ∈ entries, g.isHashable g.nodes.size e.1 = true
  tensorFree : ∀ e ∈ entries, g.TensorFree e.1
  apart : entries.Pairwise fun a b =>
    Value.same (g.key g.nodes.size a.1) (g.key g.nodes.size b.1) = false

theorem KeysApart.of_prefix {g : Graph} {a b : List (Nat × Nat)} (h : g.KeysApart b)
    (hp : a <+: b) : g.KeysApart a where
  hashable e he := h.hashable e (hp.subset he)
  tensorFree e he := h.tensorFree e (hp.subset he)
  apart := h.apart.sublist hp.sublist

end Graph

section Shown

variable {g : Graph} {uses : List StorageUse} {w : World} {fuel id id' : Nat} {v v' : Value}

theorem allRenamed_eq (f : Nat → Nat) (vs : List Value) :
    Value.allRenamed f vs = vs.map (Value.renamed f) := by
  induction vs with
  | nil => rfl
  | cons v vs ih => rw [Value.allRenamed, ih, List.map_cons]

theorem allHashable_eq (vs : List Value) : Value.allHashable vs = vs.all Value.hashable := by
  induction vs with
  | nil => rfl
  | cons v vs ih => rw [Value.allHashable, ih, List.all_cons]

theorem map_eq_of_forall₂ {α β γ : Type} {F : α → γ} {G : β → γ} {p : β → Bool} {as : List α}
    {bs : List β} (h : List.Forall₂ (fun a b => F a = G b ∧ p b = true) as bs) :
    as.map F = bs.map G ∧ ∀ b ∈ bs, p b = true := by
  induction h with
  | nil => exact ⟨rfl, nofun⟩
  | cons h _ ih =>
    rw [List.map_cons, List.map_cons, h.1, ih.1]
    exact ⟨rfl, List.forall_mem_cons.2 ⟨h.2, ih.2⟩⟩

/-- A value that shows a key is that key, but for births. -/
theorem key_eq_renamed (hh : g.isHashable fuel id = true) (free : g.TensorFree id)
    (hv : Shows g uses w id v) :
    g.key fuel id = v.renamed (fun birth => (w.origin birth).getD 0) ∧ v.hashable = true := by
  induction fuel generalizing id v with
  | zero => cases hh
  | succ fuel ih =>
    cases hv with
    | none hg | bool hg | int hg | text hg =>
      simp [Graph.key, hg, Value.renamed, Value.hashable]
    | float hg ho => simp [Graph.key, hg, Value.renamed, Value.hashable, ho]
    | storageClass hg hd => simp [Graph.key, hg, Value.renamed, Value.hashable, hd]
    | tensor hg _ => exact absurd hg (free id _ .refl)
    | object hg _ =>
      unfold Node.isContainer at hg
      unfold Graph.isHashable at hh
      split at hg <;> simp_all
    -- Births are told apart among keys, so a tuple is compared by the node that it was born for.
    | @tuple _ items values birth hg ho hl hs =>
      simp only [Graph.isHashable, hg, List.all_eq_true] at hh
      have step (p : Nat × Value) (hp : p ∈ items.zip values) :
          g.key fuel p.1 = p.2.renamed (fun birth => (w.origin birth).getD 0) ∧
            p.2.hashable = true := by
        have item := (List.of_mem_zip hp).1
        apply ih (hh _ item) _ (hs p hp)
        intro n t hn
        exact free n t (.head (Graph.holds_of_tuple hg _ item) hn)
      obtain ⟨keys, hashable⟩ := map_eq_of_forall₂ (F := g.key fuel)
        (G := Value.renamed fun birth => (w.origin birth).getD 0) (p := Value.hashable)
        (List.forall₂_iff_zip.2 ⟨hl, fun hp => step _ hp⟩)
      constructor
      · rw [Graph.key, hg]
        simp only [Value.renamed, keys, allRenamed_eq, ho, Option.getD_some]
      · rw [Value.hashable, allHashable_eq, List.all_eq_true]
        exact hashable

theorem keyed_of_shows {entries : List (Nat × Nat)} {items : List (Value × Value)}
    (h : g.KeysApart entries) (hs : ShowsEntries g uses w entries items) : Keyed items := by
  have shown : List.Forall₂ (fun e v => g.key g.nodes.size e.1 =
      v.1.renamed (fun birth => (w.origin birth).getD 0) ∧ v.1.hashable = true) entries items := by
    obtain ⟨hl, hs⟩ := List.forall₂_iff_zip.1 hs
    refine List.forall₂_iff_zip.2 ⟨hl, fun {e v} hev => ?_⟩
    have he := (List.of_mem_zip hev).1
    exact key_eq_renamed (h.hashable e he) (h.tensorFree e he) (hs hev).1
  obtain ⟨keys, hashable⟩ := map_eq_of_forall₂ (p := fun v : Value × Value => v.1.hashable) shown
  have apart : (entries.map fun e => g.key g.nodes.size e.1).Pairwise
      fun a b => Value.same a b = false := List.pairwise_map.2 h.apart
  -- Keys of the graph are apart whatever their births, so values that differ from them in births only
  -- are apart as well.
  rw [keys, List.pairwise_map] at apart
  refine ⟨hashable, apart.imp ?_⟩
  intro a b differ
  rw [← Bool.not_eq_true]
  intro same
  rw [Value.same_renamed _ same] at differ
  cases differ

end Shown

end Checkpoint.Pickle
