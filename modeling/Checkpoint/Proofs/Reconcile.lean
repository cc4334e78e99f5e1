import Checkpoint.Reconcile
import Checkpoint.Proofs.Effect
import Checkpoint.Proofs.List
import Checkpoint.Proofs.ReadFaults
import Checkpoint.Proofs.Table
import Checkpoint.Proofs.Tensor.Copy
import Mathlib.Data.List.GetD

/-! Merging: which tensors are copied, in which order, and what a merge that fails has done. -/

namespace Checkpoint

open Effect

/-- Whether a name counts for a merge into tensors with these names. -/
def Policy.shares (policy : Policy) (target : List Text) (name : Text) : Bool :=
  !policy.skip.contains name && target.contains name

/-! ### Names -/

/-- Two sides have the same names, apart from those that are skipped. -/
def Agree (skip loaded target : List Text) : Prop :=
  ∀ name, name ∉ skip → (name ∈ loaded ↔ name ∈ target)

/-- The names that count of one side and that the other does not have. -/
def onlyIn (skip side other : List Text) : List Text :=
  side.filter fun name => !skip.contains name && !other.contains name

section Names

variable {skip loaded loaded' target a a' b b' : List Text} {name : Text}

theorem mem_onlyIn : name ∈ onlyIn skip a b ↔ name ∈ a ∧ name ∉ skip ∧ name ∉ b := by
  simp [onlyIn]

theorem onlyIn_congr (same : ∀ name, name ∉ skip → (name ∈ b ↔ name ∈ b')) :
    onlyIn skip a b = onlyIn skip a b' := by
  refine List.filter_congr fun name _ => ?_
  by_cases counts : name ∈ skip
  · simp [counts]
  · simp [same name counts]

theorem diffKeys_eq (loaded target skip : List Text) : diffKeys loaded target skip =
    { missing := onlyIn skip target loaded, unexpected := onlyIn skip loaded target } := by
  have counted (a b : List Text) : ((a.filter fun name => !skip.contains name).filter fun name =>
      !(b.filter fun name => !skip.contains name).contains name) = onlyIn skip a b := by
    rw [List.filter_filter, onlyIn]
    refine List.filter_congr fun name _ => ?_
    by_cases counts : name ∈ skip <;> simp [counts]
  unfold diffKeys
  dsimp only
  rw [counted, counted]

theorem agree_iff : Agree skip loaded target ↔ onlyIn skip target loaded = [] ∧ onlyIn skip loaded target = [] := by
  simp only [List.eq_nil_iff_forall_not_mem, mem_onlyIn]
  constructor
  · intro h
    exact ⟨fun name ⟨known, counts, other⟩ => other ((h name counts).2 known),
      fun name ⟨known, counts, other⟩ => other ((h name counts).1 known)⟩
  · rintro ⟨missing, unexpected⟩ name counts
    exact ⟨fun known => by_contra fun other => unexpected name ⟨known, counts, other⟩,
      fun known => by_contra fun other => missing name ⟨known, counts, other⟩⟩

theorem Agree.diffKeys_eq (h : Agree skip loaded target) :
    diffKeys loaded target skip = { missing := [], unexpected := [] } := by
  rw [Checkpoint.diffKeys_eq, (agree_iff.1 h).1, (agree_iff.1 h).2]

theorem Agree.checkKeys_eq (h : Agree skip loaded target) : checkKeys loaded target skip = .ok () := by
  rw [checkKeys, h.diffKeys_eq]
  rfl

theorem KeyDifference.require_of_isEmpty {d : KeyDifference} (differ : d.isEmpty = false) :
    d.require = .error (.stateMismatch (Text.sort d.missing) (Text.sort d.unexpected)) := by
  rw [require, differ]
  rfl

theorem KeyDifference.require_eq_error {d : KeyDifference} {e : Error} (failed : d.require = .error e) :
    ∃ missing unexpected, e = .stateMismatch missing unexpected := by
  unfold require at failed
  split at failed <;> cases failed
  exact ⟨_, _, rfl⟩

/-- Names that differ are told sorted, those of each side on their own. -/
theorem checkKeys_of_not_agree (h : ¬ Agree skip loaded target) : checkKeys loaded target skip =
    .error (.stateMismatch (Text.sort (onlyIn skip target loaded)) (Text.sort (onlyIn skip loaded target))) := by
  rw [checkKeys, diffKeys_eq]
  apply KeyDifference.require_of_isEmpty
  rw [agree_iff] at h
  rw [KeyDifference.isEmpty, Bool.and_eq_false_iff, ← Bool.not_eq_true, ← Bool.not_eq_true,
    List.isEmpty_iff, List.isEmpty_iff]
  exact Classical.not_and_iff_not_or_not.1 h

/-- Sorting does not depend on the order of the names. -/
theorem sort_eq_of_perm (h : a.Perm b) : Text.sort a = Text.sort b := by
  refine List.Perm.eq_of_pairwise (fun _ _ _ _ => Text.le_antisymm)
    (List.pairwise_mergeSort Text.le_trans Text.le_total a)
    (List.pairwise_mergeSort Text.le_trans Text.le_total b) ?_
  exact (List.mergeSort_perm a _).trans (h.trans (List.mergeSort_perm b _).symm)

/-- Neither the order of the loaded names nor those that are skipped matter. -/
theorem checkKeys_congr
    (perm : loaded.Perm (loaded'.filter fun name => !skip.contains name)) (target : List Text) :
    checkKeys loaded target skip = checkKeys loaded' target skip := by
  have same (name : Text) (counts : name ∉ skip) : name ∈ loaded ↔ name ∈ loaded' := by
    rw [perm.mem_iff, List.mem_filter]
    simp [counts]
  by_cases agree : Agree skip loaded target
  · have agree' : Agree skip loaded' target := fun name counts =>
      (same name counts).symm.trans (agree name counts)
    rw [agree.checkKeys_eq, agree'.checkKeys_eq]
  · have differ : ¬ Agree skip loaded' target := fun agree' =>
      agree fun name counts => (same name counts).trans (agree' name counts)
    have only : onlyIn skip (loaded'.filter fun name => !skip.contains name) target = onlyIn skip loaded' target := by
      rw [onlyIn, List.filter_filter]
      refine List.filter_congr fun name _ => ?_
      by_cases counts : name ∈ skip <;> simp [counts]
    have unexpected : (onlyIn skip loaded target).Perm (onlyIn skip loaded' target) := only ▸ perm.filter _
    rw [checkKeys_of_not_agree agree, checkKeys_of_not_agree differ, onlyIn_congr same,
      sort_eq_of_perm unexpected]

/-- Names that differ are all counted. -/
theorem addUnexpected_eq {d : KeyDifference} {names : List Text} (none : d.unexpected = [])
    (distinct : names.Nodup) : d.addUnexpected names = { d with unexpected := names } := by
  have counted (found : List Text) (apart : (found ++ names).Nodup) :
      names.foldl (fun found name => if found.contains name then found else found ++ [name]) found =
        found ++ names := by
    induction names generalizing found with
    | nil => rw [List.append_nil]; rfl
    | cons name names ih =>
      have fresh : ¬ found.contains name = true := by
        rw [List.contains_iff_mem]
        exact fun known => (List.nodup_append.1 apart).2.2 name known name List.mem_cons_self rfl
      rw [List.foldl_cons, if_neg fresh, ih (List.nodup_cons.1 distinct).2 _ (by simpa using apart),
        List.append_assoc]
      rfl
  rw [KeyDifference.addUnexpected, none, counted [] distinct]
  rfl

end Names

/-! ### Copying in turn -/

section Copying

variable {target : Table Text Tensor} {sources before : List (Text × Tensor)} {m : Memory}
  {name : Text} {source live : Tensor}

/-- The memory after tensors have been copied in turn into those with their names. -/
def copiedInto (target : Table Text Tensor) (m : Memory) (sources : List (Text × Tensor)) : Memory :=
  sources.foldl (fun m named => match target.get? named.1 with
    | some live => m.write live (m.converted named.2 live)
    | none => m) m

/-- A tensor has the shape of the one it is to be copied into, if there is one. -/
def Fitting (target : Table Text Tensor) (named : Text × Tensor) : Prop :=
  ∀ live, target.get? named.1 = some live → named.2.shape = live.shape

/-- No copy is refused for another reason than the shapes. -/
def Receptive (target : Table Text Tensor) (sources : List (Text × Tensor)) : Prop :=
  ∀ named ∈ sources, ∀ live, target.get? named.1 = some live →
    named.2.storage ≠ live.storage ∧ live.repeatsElements = false

/-- Why a tensor is not copied into a live one that lies apart. -/
inductive Refused (named : Text × Tensor) (live : Tensor) : Error → Prop
  | shape (differ : named.2.shape ≠ live.shape) :
    Refused named live (.shapeMismatch named.1 named.2.shape live.shape)
  | repeats (same : named.2.shape = live.shape) (repeats : live.repeatsElements = true) :
    Refused named live (.tensorFault .repeatedElements)

theorem copyTensor_eq_ok (shape : source.shape = live.shape) (apart : source.storage ≠ live.storage)
    (single : live.repeatsElements = false) :
    copyTensor name source live m = .ok ⟨⟩ (m.write live (m.converted source live)) := by
  unfold copyTensor
  rw [if_neg (not_not.2 shape)]
  change (Effect.ofExcept ((m.copy source live).mapError .tensorFault) >>= set) m = _
  rw [Memory.copy_of_ne apart single]
  rfl

theorem copyTensor_eq_error (shape : source.shape ≠ live.shape) :
    copyTensor name source live m = .error (.shapeMismatch name source.shape live.shape) m := by
  unfold copyTensor
  rw [if_pos shape]
  rfl

theorem copyShared_eq_ok (receptive : Receptive target sources)
    (fitting : ∀ named ∈ sources, Fitting target named) :
    copyShared target sources m =
      .ok ((sources.map Prod.fst).filter fun name => (target.get? name).isSome)
        (copiedInto target m sources) := by
  induction sources generalizing m with
  | nil => rfl
  | cons named sources ih =>
    obtain ⟨name, source⟩ := named
    obtain ⟨first, fitting⟩ := List.forall_mem_cons.1 fitting
    obtain ⟨ready, receptive⟩ := List.forall_mem_cons.1 receptive
    rw [copyShared, copiedInto, List.foldl_cons, List.map_cons]
    cases found : target.get? name with
    | none =>
      rw [List.filter_cons_of_neg (by simp [found])]
      exact ih receptive fitting
    | some live =>
      obtain ⟨apart, single⟩ := ready live found
      rw [List.filter_cons_of_pos (by simp [found])]
      refine (bind_of_ok (copyTensor_eq_ok (first live found) apart single) _).trans ?_
      exact bind_of_ok (ih receptive fitting) _

/-- A failure of copying tensors. -/
def Error.IsCopying : Error → Prop
  | .shapeMismatch .. | .tensorFault _ => True
  | _ => False

/-- Copying fails over shapes or over the tensors themselves. -/
theorem copyShared_isCopying (target : Table Text Tensor) (sources : List (Text × Tensor)) (m : Memory) :
    (copyShared target sources).Ensures m (fun _ _ => True) fun e _ => e.IsCopying := by
  induction sources generalizing m with
  | nil => exact (ensures_pure _).2 trivial
  | cons named sources ih =>
    rw [copyShared]
    split
    · exact ih m
    · rw [ensures_bind, copyTensor]
      split
      · exact (ensures_bind _).2 ((ensures_throw _).2 trivial)
      · rw [ensures_bind, ensures_get, ensures_bind]
        refine ensures_ofExcept (fun m' _ => ?_) fun e failed => ?_
        · rw [ensures_set, ensures_bind]
          exact (ih m').post fun _ _ _ => (ensures_pure _).2 trivial
        · cases copied : m.copy named.2 _ <;> rw [copied] at failed <;> cases failed
          trivial

theorem copyTensor_of_ok {m' : Memory} (apart : source.storage ≠ live.storage)
    (copied : copyTensor name source live m = .ok ⟨⟩ m') :
    source.shape = live.shape ∧ m' = m.write live (m.converted source live) := by
  by_cases shape : source.shape = live.shape
  · refine ⟨shape, ?_⟩
    unfold copyTensor at copied
    rw [if_neg (not_not.2 shape)] at copied
    change (Effect.ofExcept ((m.copy source live).mapError .tensorFault) >>= set) m = _ at copied
    cases result : m.copy source live with
    | error =>
      rw [result] at copied
      cases copied
    | ok _ =>
      rw [result] at copied
      cases copied
      exact Memory.copy_eq_ok_of_ne apart result
  · cases (copyTensor_eq_error shape).symm.trans copied

/-- A copy that is refused writes nothing. -/
theorem copyTensor_of_error {e : Error} {m' : Memory} (apart : source.storage ≠ live.storage)
    (failed : copyTensor name source live m = .error e m') : Refused (name, source) live e ∧ m' = m := by
  by_cases shape : source.shape = live.shape
  · cases repeats : live.repeatsElements with
    | false => cases (copyTensor_eq_ok shape apart repeats).symm.trans failed
    | true =>
      unfold copyTensor at failed
      rw [if_neg (not_not.2 shape)] at failed
      change (Effect.ofExcept ((m.copy source live).mapError .tensorFault) >>= set) m = _ at failed
      cases result : m.copy source live with
      | ok _ =>
        rw [result] at failed
        cases failed
      | error fault =>
        rw [result, Memory.copy_eq_error_of_ne apart result] at failed
        cases failed
        exact ⟨.repeats shape repeats, rfl⟩
  · cases (copyTensor_eq_error shape).symm.trans failed
    exact ⟨.shape shape, rfl⟩

/-- Copies that have all been made are those of the tensors that the target has too, in turn. -/
theorem copyShared_of_ok {names : List Text} {m' : Memory}
    (apart : ∀ named ∈ sources, ∀ live, target.get? named.1 = some live → named.2.storage ≠ live.storage)
    (copied : copyShared target sources m = .ok names m') :
    (∀ named ∈ sources, Fitting target named) ∧
      names = ((sources.map Prod.fst).filter fun name => (target.get? name).isSome) ∧
      m' = copiedInto target m sources := by
  induction sources generalizing m names with
  | nil =>
    cases copied
    exact ⟨nofun, rfl, rfl⟩
  | cons named sources ih =>
    obtain ⟨name, source⟩ := named
    obtain ⟨first, apart⟩ := List.forall_mem_cons.1 apart
    rw [← perform_eq_ok, copyShared] at copied
    rw [copiedInto, List.foldl_cons, List.map_cons, List.forall_mem_cons, Fitting]
    cases found : target.get? name with
    | none =>
      rw [found] at copied
      obtain ⟨fitting, rfl, rfl⟩ := ih apart (perform_eq_ok.1 copied)
      rw [List.filter_cons_of_neg (by simp [found])]
      exact ⟨⟨nofun, fitting⟩, rfl, rfl⟩
    | some live =>
      rw [found, perform_bind_eq_ok] at copied
      obtain ⟨⟨⟩, m₁, here, copied⟩ := copied
      rw [perform_bind_eq_ok] at copied
      obtain ⟨others, m₂, rest, copied⟩ := copied
      cases copied
      obtain ⟨shape, rfl⟩ := copyTensor_of_ok (first live found) (perform_eq_ok.1 here)
      obtain ⟨fitting, rfl, rfl⟩ := ih apart (perform_eq_ok.1 rest)
      rw [List.filter_cons_of_pos (by simp [found])]
      refine ⟨⟨?_, fitting⟩, rfl, rfl⟩
      rintro _ ⟨⟩
      exact shape

/-- Copying ends at a tensor that is refused, with those in front of it copied. -/
theorem copyShared_of_error {e : Error} {m' : Memory}
    (apart : ∀ named ∈ sources, ∀ live, target.get? named.1 = some live → named.2.storage ≠ live.storage)
    (failed : copyShared target sources m = .error e m') :
    ∃ before named after live, sources = before ++ named :: after ∧
      (∃ names, copyShared target before m = .ok names m') ∧
      target.get? named.1 = some live ∧ Refused named live e := by
  induction sources generalizing m with
  | nil => cases failed
  | cons named sources ih =>
    obtain ⟨first, apart⟩ := List.forall_mem_cons.1 apart
    rw [← perform_eq_error, copyShared] at failed
    cases found : target.get? named.1 with
    | none =>
      rw [found] at failed
      obtain ⟨before, refused, after, live, rfl, ⟨names, copies⟩, known, why⟩ :=
        ih apart (perform_eq_error.1 failed)
      refine ⟨named :: before, refused, after, live, rfl, ⟨names, ?_⟩, known, why⟩
      rw [copyShared, found]
      exact copies
    | some into =>
      rw [found, perform_bind_eq_error] at failed
      obtain failed | ⟨⟨⟩, m₁, here, failed⟩ := failed
      · obtain ⟨why, rfl⟩ := copyTensor_of_error (first into found) (perform_eq_error.1 failed)
        exact ⟨[], named, sources, into, rfl, ⟨[], rfl⟩, found, why⟩
      rw [perform_bind_eq_error] at failed
      obtain failed | ⟨others, _, _, failed⟩ := failed
      · obtain ⟨before, refused, after, live, rfl, ⟨names, copies⟩, known, why⟩ :=
          ih apart (perform_eq_error.1 failed)
        refine ⟨named :: before, refused, after, live, rfl, ⟨named.1 :: names, ?_⟩, known, why⟩
        rw [copyShared, found]
        exact (bind_of_ok (perform_eq_ok.1 here) _).trans (bind_of_ok copies _)
      · cases failed

/-- What is to be copied lies in buffers behind those that are written, and these hold the tensors that it
is copied into. -/
structure Ready (target : Table Text Tensor) (count : Nat) (m : Memory) (named : Text × Tensor) : Prop where
  behind : count ≤ named.2.storage
  front : ∀ live, target.get? named.1 = some live → live.storage < count
  held : ∀ live, target.get? named.1 = some live → m.Holds live

section Elements

variable {count : Nat} {named named' : Text × Tensor} {u : Tensor}

/-- What is read is behind what is written. -/
theorem Ready.elements_write (h : Ready target count m named) (found : target.get? named.1 = some live)
    (h' : Ready target count m named') (elements : List Bytes) :
    (m.write live elements).elements named'.2 = m.elements named'.2 := by
  have other : live.storage ≠ named'.2.storage := by
    have := h.front live found
    have := h'.behind
    omega
  exact Memory.elements_congr (Memory.buffer_write_of_ne other elements)

theorem Ready.write (h : Ready target count m named) (found : target.get? named.1 = some live)
    (h' : Ready target count m named') :
    Ready target count (m.write live (m.converted named.2 live)) named' where
  behind := h'.behind
  front := h'.front
  held live' found' := (h'.held live' found').write (h.held live found) Memory.length_le_of_mem_converted

/-- Copies do not touch a tensor that shares no bytes with those that are written. -/
theorem elements_copiedInto_of_disjoint (ready : ∀ named ∈ sources, Ready target count m named)
    (apart : ∀ named ∈ sources, ∀ live, target.get? named.1 = some live → live.Disjoint u) :
    (copiedInto target m sources).elements u = m.elements u := by
  induction sources generalizing m with
  | nil => rfl
  | cons named sources ih =>
    obtain ⟨first, ready⟩ := List.forall_mem_cons.1 ready
    obtain ⟨firstApart, apart⟩ := List.forall_mem_cons.1 apart
    rw [copiedInto, List.foldl_cons]
    cases found : target.get? named.1 with
    | none => exact ih ready apart
    | some live =>
      have written : (m.write live (m.converted named.2 live)).elements u = m.elements u :=
        Memory.elements_write_of_disjoint (first.held live found) Memory.length_le_of_mem_converted
          (firstApart live found)
      exact (ih (fun named' hn => first.write found (ready named' hn)) apart).trans written

/-- Each tensor holds what has been copied into it, if no two that are written share bytes. -/
theorem elements_copiedInto (allocated : count ≤ m.buffers.length)
    (ready : ∀ named ∈ sources, Ready target count m named)
    (sized : ∀ named ∈ sources, ∀ bytes ∈ m.elements named.2, bytes.length = named.2.dtype.size)
    (fitting : ∀ named ∈ sources, Fitting target named)
    (apart : sources.Pairwise fun a b => ∀ live, target.get? a.1 = some live →
      ∀ other, target.get? b.1 = some other → other.Disjoint live) :
    ∀ named ∈ sources, ∀ live, target.get? named.1 = some live →
      (copiedInto target m sources).elements live =
        (m.write live (m.converted named.2 live)).elements live := by
  induction sources generalizing m with
  | nil => nofun
  | cons named sources ih =>
    obtain ⟨first, ready⟩ := List.forall_mem_cons.1 ready
    obtain ⟨-, sized⟩ := List.forall_mem_cons.1 sized
    obtain ⟨-, fitting⟩ := List.forall_mem_cons.1 fitting
    obtain ⟨firstApart, apart⟩ := List.pairwise_cons.1 apart
    rw [copiedInto, List.foldl_cons]
    cases found : target.get? named.1 with
    | none =>
      refine List.forall_mem_cons.2 ⟨fun live found' => ?_, ih allocated ready sized fitting apart⟩
      cases found.symm.trans found'
    | some live =>
      have ready' := fun named' hn => first.write found (ready named' hn)
      have read (named' : Text × Tensor) (hn : named' ∈ sources) :
          (m.write live (m.converted named.2 live)).elements named'.2 = m.elements named'.2 :=
        first.elements_write found (ready named' hn) _
      have allocated' : count ≤ (m.write live (m.converted named.2 live)).buffers.length := by
        rwa [Memory.length_buffers_write]
      refine List.forall_mem_cons.2 ⟨fun _ found' => ?_, fun named' hn live' found' => ?_⟩
      · cases found.symm.trans found'
        exact elements_copiedInto_of_disjoint ready' fun named' hn => firstApart named' hn live found
      · -- What the first tensor has been overwritten with is not read, and is overwritten once more here.
        refine (ih allocated' ready' (fun named' hn => ?_) fitting apart named' hn live' found').trans ?_
        · rw [read named' hn]
          exact sized named' hn
        have inside {n : Nat} (le : count ≤ n) : live'.storage < n :=
          Nat.lt_of_lt_of_le ((ready named' hn).front live' found') le
        rw [Memory.converted_congr (read named' hn)]
        apply Memory.elements_write_congr (inside allocated') ((ready' named' hn).held live' found')
          (inside allocated) ((ready named' hn).held live' found')
        · rw [Memory.length_converted]
          exact congrArg Shape.count (fitting named' hn live' found')
        · exact Memory.length_of_mem_converted (sized named' hn)

end Elements

end Copying

/-! ### Merging -/

section Merging

variable {policy : Policy} {state : StateDict} {target sources : List (Text × Tensor)}
  {unread : List Text} {m : Memory}

/-- All buffers that are at hand during a merge. -/
def joined (m : Memory) (state : StateDict) : Memory := ⟨m.buffers ++ state.memory.buffers⟩

/-- Tensors of a state over the buffers that are at hand during a merge. -/
def shifted (m : Memory) (sources : List (Text × Tensor)) : List (Text × Tensor) :=
  sources.map fun named => (named.1, named.2.shift m.buffers.length)

/-- The memory after tensors of a state have been merged. -/
def merged (m : Memory) (state : StateDict) (target sources : List (Text × Tensor)) : Memory :=
  ⟨(copiedInto ⟨target⟩ (joined m state) (shifted m sources)).buffers.take m.buffers.length⟩

/-- The tensors that are not skipped. -/
def Policy.kept (policy : Policy) (tensors : List (Text × Tensor)) : List (Text × Tensor) :=
  tensors.filter fun named => !policy.skip.contains named.1

/-- What the two sides of a merge do not have in common. -/
def Policy.difference (policy : Policy) (loaded target : List (Text × Tensor)) (unread : List Text) :
    KeyDifference :=
  (diffKeys ((policy.kept loaded).map Prod.fst) (target.map Prod.fst) policy.skip).addUnexpected
    (unread.filter fun name => !policy.skip.contains name && !(target.map Prod.fst).contains name)

/-- The copies of a merge, when the names have been compared. -/
def Policy.copying (policy : Policy) (loaded target : List (Text × Tensor)) (unread : List Text) :
    Effect Memory Merge := do
  let copied ← copyShared ⟨target⟩ (policy.kept loaded)
  return {
    copied
    missing := (policy.difference loaded target unread).missing
    unexpected := (policy.difference loaded target unread).unexpected }

theorem reconcile_eq (policy : Policy) (loaded target : List (Text × Tensor)) (unread : List Text) :
    reconcile policy loaded target unread =
      if policy.strict then
        Effect.ofExcept (policy.difference loaded target unread).require >>= fun _ =>
          policy.copying loaded target unread
      else policy.copying loaded target unread :=
  rfl

theorem kept_shifted (policy : Policy) (m : Memory) (tensors : List (Text × Tensor)) :
    policy.kept (shifted m tensors) = shifted m (policy.kept tensors) := by
  rw [Policy.kept, shifted, List.filter_map]
  rfl

theorem map_fst_shifted (m : Memory) (tensors : List (Text × Tensor)) :
    (shifted m tensors).map Prod.fst = tensors.map Prod.fst := by
  rw [shifted, List.map_map]
  rfl

theorem difference_shifted (policy : Policy) (m : Memory) (loaded : List (Text × Tensor)) :
    policy.difference (shifted m loaded) target unread = policy.difference loaded target unread := by
  rw [Policy.difference, kept_shifted, map_fst_shifted]
  rfl

/-- Tensors that both sides have are not skipped. -/
theorem kept_of_shared {tensors : List (Text × Tensor)} {names : List Text}
    (shared : ∀ named ∈ tensors, policy.shares names named.1 = true) : policy.kept tensors = tensors :=
  List.filter_eq_self.2 fun named hn => (Bool.and_eq_true_iff.1 (shared named hn)).1

/-- Tensors that both sides have are all copied. -/
theorem copied_of_shared {tensors : List (Text × Tensor)}
    (shared : ∀ named ∈ tensors, policy.shares (target.map Prod.fst) named.1 = true) :
    ((tensors.map Prod.fst).filter fun name => (Table.get? ⟨target⟩ name).isSome) =
      tensors.map Prod.fst := by
  rw [List.filter_eq_self, List.forall_mem_map]
  intro named hn
  have known := List.contains_iff_mem.1 (Bool.and_eq_true_iff.1 (shared named hn)).2
  rwa [← Table.contains_eq_isSome, Table.contains_iff_mem_keys]

/-- If only such tensors are loaded as both sides have, the other names are those that have not been read. -/
theorem difference_of_shared {tensors : List (Text × Tensor)}
    (shared : ∀ named ∈ tensors, policy.shares (target.map Prod.fst) named.1 = true)
    (distinct : (onlyIn policy.skip unread (target.map Prod.fst)).Nodup) :
    policy.difference tensors target unread = {
      missing := onlyIn policy.skip (target.map Prod.fst) (tensors.map Prod.fst)
      unexpected := onlyIn policy.skip unread (target.map Prod.fst) } := by
  have known : onlyIn policy.skip (tensors.map Prod.fst) (target.map Prod.fst) = [] := by
    rw [List.eq_nil_iff_forall_not_mem]
    intro name hn
    obtain ⟨loaded, -, other⟩ := mem_onlyIn.1 hn
    obtain ⟨named, listed, rfl⟩ := List.mem_map.1 loaded
    exact other (List.contains_iff_mem.1 (Bool.and_eq_true_iff.1 (shared named listed)).2)
  rw [Policy.difference, kept_of_shared shared, diffKeys_eq, known]
  exact addUnexpected_eq rfl distinct

theorem mergeState_of_ok {merge : Merge} {all : Memory}
    (h : reconcile policy (shifted m state.tensors) target unread (joined m state) = .ok merge all) :
    mergeState policy state target unread m = .ok merge ⟨all.buffers.take m.buffers.length⟩ :=
  andFinally_of_ok h rfl

theorem mergeState_of_error {e : Error} {all : Memory}
    (h : reconcile policy (shifted m state.tensors) target unread (joined m state) = .error e all) :
    mergeState policy state target unread m = .error e ⟨all.buffers.take m.buffers.length⟩ :=
  andFinally_of_error h rfl

/-- Tensors that take every copy from a state: they have storages of the memory, and none that counts is
certain to repeat elements. -/
structure Takes (policy : Policy) (m : Memory) (target : List (Text × Tensor)) : Prop where
  allocated : ∀ named ∈ target, named.2.storage < m.buffers.length
  single : ∀ named ∈ target, named.1 ∉ policy.skip → named.2.repeatsElements = false

theorem Policy.mem_kept {policy : Policy} {tensors : List (Text × Tensor)} {named : Text × Tensor} :
    named ∈ policy.kept tensors ↔ named ∈ tensors ∧ named.1 ∉ policy.skip := by
  simp [kept]

/-- Tensors of a state lie apart from all live ones. -/
theorem storage_shifted_ne (allocated : ∀ named ∈ target, named.2.storage < m.buffers.length)
    (sources : List (Text × Tensor)) : ∀ named ∈ shifted m sources, ∀ live,
      Table.get? ⟨target⟩ named.1 = some live → named.2.storage ≠ live.storage := by
  rw [shifted, List.forall_mem_map]
  intro named hn live found
  have allocated : live.storage < m.buffers.length := allocated _ (Table.mem_entries_of_get? found)
  change m.buffers.length + named.2.storage ≠ live.storage
  omega

theorem Takes.receptive (h : Takes policy m target) (counted : ∀ named ∈ sources, named.1 ∉ policy.skip) :
    Receptive ⟨target⟩ (shifted m sources) := by
  intro named hn live found
  refine ⟨storage_shifted_ne h.allocated _ named hn live found, ?_⟩
  obtain ⟨source, hs, rfl⟩ := List.mem_map.1 hn
  exact h.single _ (Table.mem_entries_of_get? found) (counted source hs)

/-- Names that differ end a strict merge before anything is copied. -/
theorem mergeState_names (strict : policy.strict = true)
    (differ : (policy.difference state.tensors target unread).isEmpty = false) :
    mergeState policy state target unread m =
      .error (.stateMismatch (Text.sort (policy.difference state.tensors target unread).missing)
        (Text.sort (policy.difference state.tensors target unread).unexpected)) m := by
  have merging : reconcile policy (shifted m state.tensors) target unread (joined m state) =
      .error (.stateMismatch (Text.sort (policy.difference state.tensors target unread).missing)
        (Text.sort (policy.difference state.tensors target unread).unexpected)) (joined m state) := by
    rw [reconcile_eq, if_pos strict, difference_shifted, KeyDifference.require_of_isEmpty differ]
    rfl
  have ended := mergeState_of_error merging
  rwa [joined, List.take_left] at ended

/-- A merge fails over its copies or, if it is strict, over names. -/
theorem mergeState_error (policy : Policy) (state : StateDict) (target : List (Text × Tensor))
    (unread : List Text) (m : Memory) : (mergeState policy state target unread).Ensures m (fun _ _ => True)
      fun e _ => e.IsCopying ∨ policy.strict = true ∧ ∃ missing unexpected, e = .stateMismatch missing unexpected := by
  have copying : (policy.copying (shifted m state.tensors) target unread).Ensures (joined m state)
      (fun _ _ => True) fun e _ => e.IsCopying ∨
        policy.strict = true ∧ ∃ missing unexpected, e = .stateMismatch missing unexpected := by
    rw [Policy.copying, ensures_bind]
    exact (copyShared_isCopying _ _ _).mono (fun _ _ _ => (ensures_pure _).2 trivial) fun _ _ => .inl
  have merging : (reconcile policy (shifted m state.tensors) target unread).Ensures (joined m state)
      (fun _ _ => True) fun e _ => e.IsCopying ∨
        policy.strict = true ∧ ∃ missing unexpected, e = .stateMismatch missing unexpected := by
    rw [reconcile_eq]
    split
    · next strict =>
      rw [ensures_bind]
      exact ensures_ofExcept (fun _ _ => copying) fun e failed =>
        .inr ⟨strict, KeyDifference.require_eq_error failed⟩
    · exact copying
  cases result : reconcile policy (shifted m state.tensors) target unread (joined m state) with
  | ok merge all => exact ensures_of_ok (mergeState_of_ok result) trivial
  | error e all =>
    exact ensures_of_error (mergeState_of_error result) (merging.of_error (perform_eq_error.2 result))

/-- A merge that is not strict does not fail over names. -/
theorem mergeState_lenient (lenient : policy.strict = false) (state : StateDict)
    (target : List (Text × Tensor)) (unread : List Text) (m : Memory) :
    (mergeState policy state target unread).Ensures m (fun _ _ => True)
      fun e _ => ∀ missing unexpected, e ≠ .stateMismatch missing unexpected := by
  refine (mergeState_error policy state target unread m).mono (fun _ _ _ => trivial) ?_
  rintro e _ (copying | ⟨strict, -⟩) missing unexpected rfl
  · exact copying
  · cases lenient.symm.trans strict

/-- When the names agree, it is the copies that decide. -/
theorem reconcile_of_agree
    (agree : policy.strict = true → (policy.difference state.tensors target unread).isEmpty = true) :
    reconcile policy (shifted m state.tensors) target unread =
      policy.copying (shifted m state.tensors) target unread := by
  rw [reconcile_eq]
  split
  · next strict =>
    have passed : (policy.difference (shifted m state.tensors) target unread).require = .ok () := by
      rw [difference_shifted, KeyDifference.require, if_pos (agree strict)]
    rw [passed]
    rfl
  · rfl

/-- When the names agree, a merge does what its copies do. -/
theorem mergeState_of_copyShared {names : List Text} {all : Memory}
    (agree : policy.strict = true → (policy.difference state.tensors target unread).isEmpty = true)
    (copies : copyShared ⟨target⟩ (shifted m (policy.kept state.tensors)) (joined m state) =
      .ok names all) :
    mergeState policy state target unread m = .ok {
        copied := names
        missing := (policy.difference state.tensors target unread).missing
        unexpected := (policy.difference state.tensors target unread).unexpected }
      ⟨all.buffers.take m.buffers.length⟩ := by
  apply mergeState_of_ok
  rw [reconcile_of_agree agree, Policy.copying, kept_shifted, difference_shifted]
  exact bind_of_ok copies _

/-- What a merge has done that did not fail: it has copied the tensors that both sides have, in turn. -/
theorem of_mergeState {merge : Merge} {m' : Memory}
    (allocated : ∀ named ∈ target, named.2.storage < m.buffers.length)
    (done : (mergeState policy state target unread).perform m = (.ok merge, m')) :
    (∀ named ∈ policy.kept state.tensors, Fitting ⟨target⟩ named) ∧
      merge = {
        copied := ((policy.kept state.tensors).map Prod.fst).filter fun name =>
          (Table.get? ⟨target⟩ name).isSome
        missing := (policy.difference state.tensors target unread).missing
        unexpected := (policy.difference state.tensors target unread).unexpected } ∧
      m' = merged m state target (policy.kept state.tensors) := by
  rw [perform_eq_ok] at done
  cases result : reconcile policy (shifted m state.tensors) target unread (joined m state) with
  | error e all => cases (mergeState_of_error result).symm.trans done
  | ok merge' all =>
    cases (mergeState_of_ok result).symm.trans done
    have copying : (policy.copying (shifted m state.tensors) target unread).perform (joined m state) =
        (.ok merge, all) := by
      rw [← perform_eq_ok, reconcile_eq] at result
      split at result
      · rw [perform_bind_eq_ok] at result
        obtain ⟨_, _, passed, result⟩ := result
        obtain ⟨-, rfl⟩ := perform_ofExcept_eq_ok.1 passed
        exact result
      · exact result
    rw [Policy.copying, kept_shifted, perform_bind_eq_ok] at copying
    obtain ⟨copied, _, copies, made⟩ := copying
    cases made
    obtain ⟨fitting, rfl, rfl⟩ :=
      copyShared_of_ok (storage_shifted_ne allocated _) (perform_eq_ok.1 copies)
    rw [map_fst_shifted, difference_shifted]
    rw [shifted, List.forall_mem_map] at fitting
    exact ⟨fitting, rfl, rfl⟩

theorem fitting_shifted {table : Table Text Tensor} (m : Memory) {sources : List (Text × Tensor)}
    (h : ∀ named ∈ sources, Fitting table named) : ∀ named ∈ shifted m sources, Fitting table named := by
  rw [shifted, List.forall_mem_map]
  exact h

theorem mergeState_copies (takes : Takes policy m target)
    (agree : policy.strict = true → (policy.difference state.tensors target unread).isEmpty = true)
    (fitting : ∀ named ∈ policy.kept state.tensors, Fitting ⟨target⟩ named) :
    mergeState policy state target unread m = .ok {
        copied := ((policy.kept state.tensors).map Prod.fst).filter fun name =>
          (Table.get? ⟨target⟩ name).isSome
        missing := (policy.difference state.tensors target unread).missing
        unexpected := (policy.difference state.tensors target unread).unexpected }
      (merged m state target (policy.kept state.tensors)) := by
  have copies := copyShared_eq_ok (m := joined m state)
    (takes.receptive fun _ hn => (Policy.mem_kept.1 hn).2) (fitting_shifted m fitting)
  rw [map_fst_shifted] at copies
  exact mergeState_of_copyShared agree copies

theorem Refused.of_shift {named : Text × Tensor} {live : Tensor} {count : Nat} {e : Error}
    (h : Refused (named.1, named.2.shift count) live e) : Refused named live e := by
  cases h with
  | shape differ => exact .shape differ
  | repeats same repeats => exact .repeats same repeats

/-- When the names agree, a merge that fails has ended at a tensor that is refused, and those in front of it
have been merged. -/
theorem mergeState_refused {e : Error} {m' : Memory}
    (allocated : ∀ named ∈ target, named.2.storage < m.buffers.length)
    (agree : policy.strict = true → (policy.difference state.tensors target unread).isEmpty = true)
    (failed : (mergeState policy state target unread).perform m = (.error e, m')) :
    ∃ before named after live merge, policy.kept state.tensors = before ++ named :: after ∧
      (mergeState { policy with strict := false } { state with tensors := before } target []).perform m =
        (.ok merge, m') ∧
      Table.get? ⟨target⟩ named.1 = some live ∧ Refused named live e := by
  cases result : reconcile policy (shifted m state.tensors) target unread (joined m state) with
  | ok merge all => cases (mergeState_of_ok result).symm.trans (perform_eq_error.1 failed)
  | error e' all =>
    cases (mergeState_of_error result).symm.trans (perform_eq_error.1 failed)
    rw [reconcile_of_agree agree, ← perform_eq_error, Policy.copying, kept_shifted,
      perform_bind_eq_error] at result
    obtain ending | ⟨_, _, _, ending⟩ := result
    · obtain ⟨before', named', after', live, split, ⟨names, copies⟩, found, why⟩ :=
        copyShared_of_error (storage_shifted_ne allocated _) (perform_eq_error.1 ending)
      obtain ⟨before, others, kept, rfl, rest⟩ := List.map_eq_append_iff.1 split
      obtain ⟨named, after, rfl, rfl, rfl⟩ := List.map_eq_cons_iff.1 rest
      have whole : Policy.kept { policy with strict := false } before = before := by
        refine List.filter_eq_self.2 fun named hn => ?_
        have listed : named ∈ policy.kept state.tensors := kept ▸ List.mem_append_left _ hn
        exact (List.mem_filter.1 listed).2
      have merges : mergeState { policy with strict := false } { state with tensors := before } target
          [] m = .ok _ ⟨all.buffers.take m.buffers.length⟩ :=
        mergeState_of_copyShared nofun (whole.symm ▸ copies)
      exact ⟨before, named, after, live, _, kept, perform_eq_ok.2 merges, found, why.of_shift⟩
    · cases ending

/-- A merge that fails has either done nothing, since the names differ, or it has ended at a tensor that is
refused. -/
theorem mergeState_failure {e : Error} {m' : Memory}
    (allocated : ∀ named ∈ target, named.2.storage < m.buffers.length)
    (failed : (mergeState policy state target unread).perform m = (.error e, m')) :
    (m' = m ∧ ∃ missing unexpected, e = .stateMismatch missing unexpected) ∨
      ∃ before named after live merge, policy.kept state.tensors = before ++ named :: after ∧
        (mergeState { policy with strict := false } { state with tensors := before } target []).perform m =
          (.ok merge, m') ∧
        Table.get? ⟨target⟩ named.1 = some live ∧ Refused named live e := by
  by_cases agree : policy.strict = true →
      (policy.difference state.tensors target unread).isEmpty = true
  · exact .inr (mergeState_refused allocated agree failed)
  · obtain ⟨strict, differ⟩ := Classical.not_imp.1 agree
    cases (mergeState_names strict (Bool.eq_false_iff.2 differ)).symm.trans (perform_eq_error.1 failed)
    exact .inl ⟨rfl, _, _, rfl⟩

/-! ### The elements afterwards -/

theorem buffer_joined_left {storage : Nat} (h : storage < m.buffers.length) :
    (joined m state).buffer storage = m.buffer storage :=
  List.getD_append _ _ _ _ h

theorem buffer_joined_right (m : Memory) (state : StateDict) (storage : Nat) :
    (joined m state).buffer (m.buffers.length + storage) = state.memory.buffer storage := by
  rw [joined, Memory.buffer, List.getD_append_right _ _ _ _ (Nat.le_add_right ..), Nat.add_sub_cancel_left]
  rfl

theorem elements_joined_shift (m : Memory) (state : StateDict) (t : Tensor) :
    (joined m state).elements (t.shift m.buffers.length) = state.memory.elements t := by
  rw [Memory.elements, Memory.elements, ← buffer_joined_right m state]
  rfl

theorem elements_merged_of_lt {u : Tensor} (h : u.storage < m.buffers.length) :
    (merged m state target sources).elements u =
      (copiedInto ⟨target⟩ (joined m state) (shifted m sources)).elements u := by
  apply Memory.elements_congr
  rw [Memory.buffer, Memory.buffer, merged, List.getD_eq_getElem?_getD, List.getElem?_take_of_lt h,
    ← List.getD_eq_getElem?_getD]

theorem converted_joined_shift (m : Memory) (state : StateDict) (source live : Tensor) :
    (joined m state).converted (source.shift m.buffers.length) live = state.memory.converted source live := by
  rw [Memory.converted, elements_joined_shift]
  rfl

/-- Whether live tensors that are merged into lie in the memory. -/
structure Mergeable (m : Memory) (target sources : List (Text × Tensor)) : Prop where
  allocated : ∀ named ∈ sources, ∀ live, Table.get? ⟨target⟩ named.1 = some live →
    live.storage < m.buffers.length
  held : ∀ named ∈ sources, ∀ live, Table.get? ⟨target⟩ named.1 = some live → m.Holds live

theorem holds_joined {t : Tensor} (allocated : t.storage < m.buffers.length) (held : m.Holds t) :
    (joined m state).Holds t := by
  rw [Memory.Holds, buffer_joined_left allocated]
  exact held

theorem length_le_joined (m : Memory) (state : StateDict) :
    m.buffers.length ≤ (joined m state).buffers.length := by
  rw [joined, List.length_append]
  exact Nat.le_add_right ..

theorem Mergeable.ready (h : Mergeable m target sources) (state : StateDict) :
    ∀ named ∈ shifted m sources, Ready ⟨target⟩ m.buffers.length (joined m state) named := by
  rw [shifted, List.forall_mem_map]
  intro named hn
  exact ⟨Nat.le_add_right .., h.allocated named hn, fun live found =>
    holds_joined (h.allocated named hn live found) (h.held named hn live found)⟩

/-- A merge leaves tensors alone that share no bytes with those that are written. -/
theorem Mergeable.elements_of_disjoint (h : Mergeable m target sources) {u : Tensor}
    (allocated : u.storage < m.buffers.length)
    (apart : ∀ named ∈ sources, ∀ live, Table.get? ⟨target⟩ named.1 = some live → live.Disjoint u) :
    (merged m state target sources).elements u = m.elements u := by
  rw [elements_merged_of_lt allocated]
  refine (elements_copiedInto_of_disjoint (h.ready state) ?_).trans
    (Memory.elements_congr (buffer_joined_left allocated))
  rw [shifted, List.forall_mem_map]
  exact apart

/-- After a merge each tensor holds what has been copied into it, if no two share bytes. -/
theorem Mergeable.elements (h : Mergeable m target sources)
    (sized : ∀ named ∈ sources, ∀ bytes ∈ state.memory.elements named.2,
      bytes.length = named.2.dtype.size)
    (fitting : ∀ named ∈ sources, Fitting ⟨target⟩ named)
    (apart : sources.Pairwise fun a b => ∀ live, Table.get? ⟨target⟩ a.1 = some live →
      ∀ other, Table.get? ⟨target⟩ b.1 = some other → other.Disjoint live) :
    ∀ named ∈ sources, ∀ live, Table.get? ⟨target⟩ named.1 = some live →
      (merged m state target sources).elements live =
        (m.write live (state.memory.converted named.2 live)).elements live := by
  intro named hn live found
  have allocated := h.allocated named hn live found
  have held := h.held named hn live found
  have sized' : ∀ named ∈ shifted m sources, ∀ bytes ∈ (joined m state).elements named.2,
      bytes.length = named.2.dtype.size := by
    rw [shifted, List.forall_mem_map]
    intro named hn
    rw [elements_joined_shift]
    exact sized named hn
  have copied := elements_copiedInto (length_le_joined m state) (h.ready state) sized'
    (fitting_shifted m fitting) (List.pairwise_map.2 apart) _ (List.mem_map_of_mem hn) live found
  rw [elements_merged_of_lt allocated, copied, converted_joined_shift]
  apply Memory.elements_write_congr (Nat.lt_of_lt_of_le allocated (length_le_joined m state))
    (holds_joined allocated held) allocated held
  · rw [Memory.length_converted]
    exact congrArg Shape.count (fitting named hn live found)
  · exact Memory.length_of_mem_converted (sized named hn)

end Merging

end Checkpoint
