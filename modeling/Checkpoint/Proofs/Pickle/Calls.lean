import Checkpoint.Proofs.Pickle.Expansion
import Checkpoint.Proofs.Pickle.StorageKeys

/-! The references of a stream.  Each stands in the call that makes some tensor, and says the key of that
tensor's storage; the tensor is stored at the end of the call. -/

namespace Checkpoint.Pickle

open Effect Encoder

section Words

/-- How a reference to a tensor's storage under some key is said. -/
def referenceWords (memory : Memory) (t : Tensor) (storageClass key : Text) : List Instruction :=
  [.mark, .unicode storageWord, .global storageModule storageClass, .unicode key,
    .unicode locationWord] ++
    number ((memory.buffer t.storage).length / t.dtype.size : Nat) ++ [.tuple]

/-- How the call that makes a tensor begins, up to the reference to its storage. -/
def openingWords : List Instruction :=
  [.global Constructor.rebuildTensorV2.module Constructor.rebuildTensorV2.name, .mark]

def sizeWords (sizes : List Nat) : List Instruction := tuple (sizes.map fun (n : Nat) => number n)

/-- How the call that makes a tensor goes on behind the reference to its storage. -/
def closingWords (t : Tensor) : List Instruction :=
  number t.offset ++ sizeWords t.shape ++ sizeWords t.stride ++ [.bool false,
    .global Constructor.orderedDict.module Constructor.orderedDict.name, .emptyTuple, .reduce, .tuple, .reduce]

theorem says_tensorOpening : Says openingWords tensorOpening :=
  (says_saveGlobal _ _).bind fun _ => says_emit rfl rfl

theorem says_storageTuple (memory : Memory) (t : Tensor) (storageClass : Text) (n : Nat) :
    Says (referenceWords memory t storageClass (Text.ofNat n)) (storageTuple memory t storageClass n) := by
  have words : referenceWords memory t storageClass (Text.ofNat n) = tuple [[.unicode storageWord],
      [.global storageModule storageClass], [.unicode (Text.ofNat n)], [.unicode locationWord],
      number ((memory.buffer t.storage).length / t.dtype.size : Nat)] := by
    simp [referenceWords, tuple, tupleInstruction]
  rw [words]
  exact says_saveTuple (.cons (says_saveText rfl) (.cons (says_saveGlobal _ _) (.cons (says_saveText rfl)
    (.cons (says_saveText rfl) (.cons (says_saveInt _) .nil)))))

theorem says_saveSizes (sizes : List Nat) : Says (sizeWords sizes) (saveSizes sizes) := by
  apply says_saveTuple
  rw [List.forall₂_map_left_iff, List.forall₂_map_right_iff]
  exact List.forall₂_same.2 fun n _ => says_saveInt n

theorem says_tensorClosing (t : Tensor) : Says (closingWords t) (tensorClosing t) := by
  have last : Says [.bool false, .global Constructor.orderedDict.module Constructor.orderedDict.name,
      .emptyTuple, .reduce, .tuple, .reduce] (emit (.bool false) >>= fun _ => orderedDict >>= fun _ =>
        memoizeFresh >>= fun _ => emit .tuple >>= fun _ => memoizeFresh >>= fun _ => emit .reduce) :=
    (says_emit rfl rfl).bind fun _ => says_orderedDict.bind fun _ => says_memoizeFresh.bind fun _ =>
      (says_emit (i := .tuple) rfl rfl).bind fun _ => says_memoizeFresh.bind fun _ => says_emit rfl rfl
  have whole := (says_saveInt t.offset).bind fun _ => (says_saveSizes t.shape).bind fun _ =>
    (says_saveSizes t.stride).bind fun _ => last
  simpa only [closingWords, tensorClosing, List.append_assoc] using whole

end Words

/-- A reference in a stream stands in the call of some tensor: the constructor and a reference under the
key of the tensor's storage have been said before it, the rest of the tensor is said behind it, and then
the tensor is stored. -/
structure Refers (g : Graph) (uses : List StorageUse) (before : List Written) (reference : Written)
    (after : List Written) (id : Nat) (t : Tensor) (storageClass : Text) (use : StorageUse) : Prop where
  tensor : g.node id = .tensor t
  classed : t.dtype.storageClass? = some storageClass
  used : use ∈ uses
  own : use.storage = t.storage
  opening : ∃ front, saidBy before =
    front ++ openingWords ++ referenceWords g.memory t storageClass use.key
  closing : ∃ inside last rest, after = inside ++ last :: rest ∧
    last.stored?.map Prod.fst = some (.node id) ∧
    saidBy (before ++ reference :: inside) = saidBy before ++ .persistentId :: closingWords t

/-- Every reference in a stream is one to the storage of its own tensor. -/
def Linked (g : Graph) (uses : List StorageUse) (written : List Written) : Prop :=
  ∀ before reference after, written = before ++ reference :: after →
    reference.instruction = .persistentId →
    ∃ id t storageClass use, Refers g uses before reference after id t storageClass use

section Linked

variable {g : Graph} {uses uses' : List StorageUse} {written more : List Written}

theorem linked_nil : Linked g uses [] := by
  intro before reference after split
  simp at split

theorem Linked.mono (h : Linked g uses written) (grown : uses ⊆ uses') : Linked g uses' written := by
  intro before reference after split refers
  obtain ⟨id, t, storageClass, use, call⟩ := h before reference after split refers
  exact ⟨id, t, storageClass, use, { call with used := grown call.used }⟩

theorem Linked.append (h : Linked g uses written) (new : ∀ before reference after,
      more = before ++ reference :: after → reference.instruction = .persistentId →
      ∃ id t storageClass use, Refers g uses (written ++ before) reference after id t storageClass use) :
    Linked g uses (written ++ more) := by
  intro before reference after split refers
  obtain ⟨front, rfl, here⟩ | ⟨back, rfl, here⟩ := List.append_eq_append_iff.1 split
  · exact new front reference after here refers
  · cases back with
    | nil =>
      rw [List.append_nil] at new
      exact List.append_nil before ▸ new [] reference after here.symm refers
    | cons _ back =>
      obtain ⟨rfl, rfl⟩ := List.cons.inj here
      obtain ⟨id, t, storageClass, use, call⟩ := h before reference back rfl refers
      obtain ⟨inside, last, rest, rfl, stored, said⟩ := call.closing
      exact ⟨id, t, storageClass, use, { call with
        closing := ⟨inside, last, rest ++ more, by simp, stored, said⟩ }⟩

theorem Linked.concat (h : Linked g uses written) {w : Written} (plain : w.instruction ≠ .persistentId) :
    Linked g uses (written ++ [w]) := by
  apply h.append
  intro before reference after split refers
  have here : reference ∈ [w] := split ▸ List.mem_append_right _ List.mem_cons_self
  rw [List.mem_singleton.1 here] at refers
  exact absurd refers plain

end Linked

namespace Encoder

variable {g : Graph} {uses : List StorageUse} {e : Encoder}

/-- The storages that are registered have their numbers as keys, and every reference so far is one to the
storage of its own tensor. -/
structure Linking (g : Graph) (uses : List StorageUse) (e : Encoder) : Prop where
  storages : e.storages = uses
  entered : Entered (fun _ => True) uses
  filed : Filed e
  linked : Linked g uses e.history

theorem linking_start : Linking g [] {} := ⟨rfl, ⟨nofun, nofun⟩, filed_start, linked_nil⟩

theorem kept_linking (g : Graph) (uses : List StorageUse) :
    Kept (fun _ => True) (fun _ => True) (Linking g uses) where
  overflow := trivial
  write e w h plain := by
    refine ⟨h.storages, h.entered, h.filed.write plain.stored, ?_⟩
    rw [history, List.reverse_cons]
    exact h.linked.concat plain.other
  store e o i h made _ stored := by
    refine ⟨h.storages, h.entered, h.filed.store made stored, ?_⟩
    rw [history, List.reverse_cons]
    apply h.linked.concat
    rintro rfl
    cases stored
  count _ _ h := ⟨h.storages, h.entered, h.filed, h.linked⟩

/-- Nothing but what makes no reference has been written since. -/
structure Since (base : List Written) (uses : List StorageUse) (e : Encoder) : Prop where
  storages : e.storages = uses
  quiet : ∃ inside, e.history = base ++ inside ∧ ∀ w ∈ inside, w.instruction ≠ .persistentId

theorem Since.write {base : List Written} (h : Since base uses e) {e' : Encoder} {w : Written}
    (output : e'.output = w :: e.output) (storages : e'.storages = e.storages)
    (plain : w.instruction ≠ .persistentId) : Since base uses e' := by
  obtain ⟨inside, written, quiet⟩ := h.quiet
  refine ⟨storages.trans h.storages, inside ++ [w], ?_, ?_⟩
  · rw [history, output, List.reverse_cons, ← history, written, List.append_assoc]
  · rw [List.forall_mem_append, List.forall_mem_singleton]
    exact ⟨quiet, plain⟩

theorem kept_since (base : List Written) (uses : List StorageUse) :
    Kept (fun _ => True) (fun _ => True) (Since base uses) where
  overflow := trivial
  write _ _ h plain := h.write rfl rfl plain.other
  store _ _ _ h _ _ stored := h.write rfl rfl (by rintro rfl; cases stored)
  count _ _ h := ⟨h.storages, h.quiet⟩

/-- The rest of a tensor, behind the reference to its storage, completes its call. -/
theorem links_tensorClosing {id : Nat} {t : Tensor} {storageClass : Text} {use : StorageUse}
    (h : Linking g uses e) (tensor : g.node id = .tensor t)
    (classed : t.dtype.storageClass? = some storageClass) (used : use ∈ uses)
    (own : use.storage = t.storage) (opening : ∃ front, e.said =
      front ++ openingWords ++ referenceWords g.memory t storageClass use.key) :
    (emit .persistentId >>= fun _ => tensorClosing t >>= fun _ => memoize (.node id)).Ensures e
      (fun _ e' => Linking g uses e') fun _ _ => True := by
  have any (n : Nat) (_ : n ∈ t.offset :: (t.shape ++ t.stride)) (error : Error)
    (_ : intInstruction n = .error error) : True := trivial
  rw [ensures_bind]
  refine (ensures_modify _).2 ?_
  have filed := h.filed.write (w := { instruction := .persistentId }) rfl
  have since : Since (e.history ++ [{ instruction := .persistentId }]) uses
      { e with output := { instruction := .persistentId } :: e.output } :=
    ⟨h.storages, [], by simp only [history, List.reverse_cons, List.append_nil], List.forall_mem_nil _⟩
  rw [ensures_bind]
  apply (((kept_since _ _).tensorClosing any _ since).and (says_tensorClosing t _ filed)).mono _
    fun _ _ _ => trivial
  rintro _ e' ⟨⟨storages, inside, written, quiet⟩, filed', said⟩
  refine ensures_memoize (fun i hi => ?_) fun _ _ => trivial
  refine ⟨storages, h.entered, filed'.store (e'.made_node id) hi, ?_⟩
  have whole : e'.history ++ [{ instruction := i, object := some (.node id) }] = e.history ++
      { instruction := .persistentId } :: (inside ++ [{ instruction := i, object := some (.node id) }]) := by
    rw [written]
    simp
  rw [history, List.reverse_cons, ← history, whole]
  apply h.linked.append
  intro before reference after split refers
  cases before with
  | nil =>
    obtain ⟨rfl, rfl⟩ := List.cons.inj split
    rw [List.append_nil]
    refine ⟨id, t, storageClass, use, tensor, classed, used, own, opening, inside, _, [], rfl, ?_, ?_⟩
    · simp [Written.stored?, hi]
    · have words : e'.said = e.said ++ [.persistentId] ++ closingWords t := by
        rw [said, said_write (w := { instruction := .persistentId }) rfl rfl rfl]
      rw [Encoder.said, written, List.append_assoc, List.append_assoc] at words
      exact words
  | cons w before =>
    have here : reference ∈ inside ++ [{ instruction := i, object := some (.node id) }] := by
      rw [(List.cons.inj split).2]
      exact List.mem_append_right _ List.mem_cons_self
    obtain here | here := List.mem_append.1 here
    · exact absurd refers (quiet reference here)
    · rw [List.mem_singleton.1 here] at refers
      rw [show i = .persistentId from refers] at hi
      cases hi

theorem linked_register {t : Tensor} (h : Linking g uses e) :
    Linking g (register uses t) { e with storages := register uses t } :=
  ⟨rfl, entered_register h.entered t, h.filed, h.linked.mono (prefix_register uses t).subset⟩

/-- A tensor is written with a reference to its own storage. -/
theorem links_saveTensor {id : Nat} {t : Tensor} (h : Linking g uses e) (tensor : g.node id = .tensor t) :
    (saveTensor g.memory (.node id) t).Ensures e (fun _ e' => ∃ uses, Linking g uses e')
      fun _ _ => True := by
  cases classed : t.dtype.storageClass? with
  | none =>
    simp only [saveTensor, classed]
    exact (ensures_throw _).2 trivial
  | some storageClass =>
    rw [saveTensor_eq classed, ensures_bind]
    apply (((kept_linking g uses).tensorOpening e h).and (says_tensorOpening e h.filed)).mono _
      fun _ _ _ => trivial
    rintro _ e₁ ⟨h₁, -, said₁⟩
    rw [ensures_bind]
    apply registers_useStorage (fun _ => trivial)
    rw [h₁.storages]
    intro n use _ here own
    have h₂ := linked_register (t := t) h₁
    have key : use.key = Text.ofNat n := h₂.entered.keys n use here
    rw [ensures_bind]
    apply (((kept_linking g _).storageTuple n (fun _ _ => trivial) _ h₂).and
      (says_storageTuple g.memory t storageClass n _ h₂.filed)).mono _ fun _ _ _ => trivial
    rintro _ e₃ ⟨h₃, -, said₃⟩
    apply (links_tensorClosing h₃ tensor classed (List.mem_of_getElem? here) own ?_).post
    · exact fun _ _ h' => ⟨_, h'⟩
    · refine ⟨e.said, ?_⟩
      rw [said₃, key]
      exact congrArg (· ++ _) said₁

end Encoder

/-- Every reference in a dumped graph is one to the storage of its own tensor. -/
theorem Graph.linked_of_dump {config : Config} {g g' : Graph} {id top : Nat} {d : Graph.Dump}
    (ha : g.asOrdered id = .ok (top, g')) (h : g.dump config id = .ok d) :
    Linked g' d.storages d.written := by
  obtain ⟨top', g'', e, ha', written, rfl⟩ := Graph.dump_eq_ok.1 h
  cases ha.symm.trans ha'
  have kept := Kept.exists_of_forall (kept_linking g')
  have links : Preserves _ (g'.stream config top) :=
    kept.stream config (fun _ _ _ => trivial) fun n t _ tensor => kept.once fun e he _ => by
      obtain ⟨uses, h⟩ := he
      exact links_saveTensor h tensor
  obtain ⟨uses, linking⟩ := (links {} ⟨_, linking_start⟩).of_ok written
  exact linking.storages ▸ linking.linked

end Checkpoint.Pickle
