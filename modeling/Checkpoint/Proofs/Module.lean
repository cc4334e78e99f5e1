import Checkpoint.Module
import Checkpoint.Proofs.Pickle.Plain

/-! Modules as object graphs: the state of a module is a mapping from the names of its saved tensors to
those tensors, with the versions of its parts as metadata. -/

namespace Checkpoint

open Pickle

namespace Pickle.Graph

/-- A graph to which objects have been added. -/
structure Grown (g g' : Graph) : Prop where
  memory : g'.memory = g.memory
  node : ∀ id, id < g.nodes.size → g'.node id = g.node id
  size : g.nodes.size ≤ g'.nodes.size

variable {g g' g'' : Graph} {id : Nat} {n : Node}

theorem Grown.refl (g : Graph) : g.Grown g := ⟨rfl, fun _ _ => rfl, Nat.le_refl _⟩

theorem Grown.trans (h : g.Grown g') (h' : g'.Grown g'') : g.Grown g'' where
  memory := h'.memory.trans h.memory
  node id hi := (h'.node id (Nat.lt_of_lt_of_le hi h.size)).trans (h.node id hi)
  size := Nat.le_trans h.size h'.size

theorem grown_add (g : Graph) (n : Node) : g.Grown (g.add n).2 where
  memory := rfl
  node id hi := by
    simp only [node, add, Array.getD_eq_getD_getElem?, Array.getElem?_push_lt hi,
      Array.getElem?_eq_getElem hi]
  size := by
    simp only [add, Array.size_push]
    omega

theorem node_add (g : Graph) (n : Node) : (g.add n).2.node (g.add n).1 = n := by
  simp only [node, add, Array.getD_eq_getD_getElem?, Array.getElem?_push_size, Option.getD_some]

/-- An object that is there stays what it is. -/
theorem Grown.node_eq (h : g.Grown g') (hg : g.node id = n) (given : n ≠ .none) : g'.node id = n :=
  (h.node id (lt_size_of_node (hg ▸ given))).trans hg

theorem exists_size_of_text {t : Text} (hg : g.node id = .text t) : ∃ k, g.nodes.size = k + 1 :=
  Nat.exists_eq_succ_of_ne_zero (Nat.ne_zero_of_lt (lt_size_of_node (by rw [hg]; nofun)))

/-- A text is its own key. -/
theorem key_eq_text {t : Text} (hg : g.node id = .text t) : g.key g.nodes.size id = .text t := by
  obtain ⟨k, hk⟩ := exists_size_of_text hg
  simp only [hk, Graph.key, hg]

/-- Keys that are different texts are different keys. -/
theorem keysApart_of_names {entries : List (Nat × Nat)} {names : List Text} (distinct : names.Nodup)
    (named : List.Forall₂ (fun e name => g.node e.1 = .text name) entries names) :
    g.KeysApart entries := by
  refine keysApart_of_texts (fun e he => ?_) ?_
  · obtain ⟨name, -, hg⟩ := exists_of_forall₂ named he
    obtain ⟨k, hk⟩ := exists_size_of_text hg
    refine ⟨?_, name, hg⟩
    simp only [hk, isHashable, hg]
  · induction named with
    | nil => exact .nil
    | cons hg named ih =>
      obtain ⟨other, distinct⟩ := List.nodup_cons.1 distinct
      refine .cons (fun e he => ?_) (ih distinct)
      obtain ⟨name, hn, hg'⟩ := exists_of_forall₂ named he
      rw [key_eq_text hg, key_eq_text hg', Value.same, beq_eq_false_iff_ne]
      rintro rfl
      exact other hn

end Pickle.Graph

namespace Module

/-- An entry of the versions: a path, and the version as a mapping of its own. -/
def ShowsVersion (g : Graph) (word : Nat) (e : Nat × Nat) (path : Text) : Prop :=
  g.node e.1 = .text path ∧ ∃ version, g.node e.2 = .dict [(word, version)] ∧
    g.node version = .int currentVersion

/-- An entry of the state: a name and a tensor. -/
def ShowsTensor (g : Graph) (e : Nat × Nat) (named : Text × Tensor) : Prop :=
  g.node e.1 = .text named.1 ∧ g.node e.2 = .tensor named.2

variable {g g' : Graph}

theorem ShowsVersion.grown {word : Nat} {e : Nat × Nat} {path : Text} (h : ShowsVersion g word e path)
    (grown : g.Grown g') : ShowsVersion g' word e path := by
  obtain ⟨key, version, value, number⟩ := h
  exact ⟨grown.node_eq key nofun, version, grown.node_eq value nofun, grown.node_eq number nofun⟩

theorem ShowsTensor.grown {e : Nat × Nat} {named : Text × Tensor} (h : ShowsTensor g e named)
    (grown : g.Grown g') : ShowsTensor g' e named :=
  ⟨grown.node_eq h.1 nofun, grown.node_eq h.2 nofun⟩

/-- What is known of entries stays true of them. -/
theorem forall₂_snoc {α : Type} {R : Graph → Nat × Nat → α → Prop} {entries : List (Nat × Nat)}
    {items : List α} {e : Nat × Nat} {a : α} (h : List.Forall₂ (R g) entries items)
    (grown : ∀ e a, R g e a → R g' e a) (last : R g' e a) :
    List.Forall₂ (R g') (entries ++ [e]) (items ++ [a]) :=
  List.rel_append (h.imp grown) (.cons last .nil)

/-- Enters a path with a version. -/
def enterVersion (word : Nat) (entered : List (Nat × Nat) × Graph) (path : Text) :
    List (Nat × Nat) × Graph :=
  let key := entered.2.add (.text path)
  let version := key.2.add (.int currentVersion)
  let versions := version.2.add (.dict [(word, version.1)])
  (entered.1 ++ [(key.1, versions.1)], versions.2)

theorem enterVersion_shows (word : Nat) (entered : List (Nat × Nat) × Graph) (path : Text) :
    entered.2.Grown (enterVersion word entered path).2 ∧ ∃ e,
      (enterVersion word entered path).1 = entered.1 ++ [e] ∧
      ShowsVersion (enterVersion word entered path).2 word e path := by
  have key := Graph.node_add entered.2 (.text path)
  have first := Graph.grown_add entered.2 (.text path)
  have version := Graph.node_add (entered.2.add (.text path)).2 (.int currentVersion)
  have second := Graph.grown_add (entered.2.add (.text path)).2 (.int currentVersion)
  have versions := Graph.node_add ((entered.2.add (.text path)).2.add (.int currentVersion)).2
    (.dict [(word, ((entered.2.add (.text path)).2.add (.int currentVersion)).1)])
  have third := Graph.grown_add ((entered.2.add (.text path)).2.add (.int currentVersion)).2
    (.dict [(word, ((entered.2.add (.text path)).2.add (.int currentVersion)).1)])
  exact ⟨first.trans (second.trans third), _, rfl, (second.trans third).node_eq key nofun, _, versions,
    third.node_eq version nofun⟩

theorem foldl_enterVersion (word : Nat) (paths : List Text) (entered : List (Nat × Nat) × Graph)
    {before : List Text} (shown : List.Forall₂ (ShowsVersion entered.2 word) entered.1 before) :
    List.Forall₂ (ShowsVersion (paths.foldl (enterVersion word) entered).2 word)
        (paths.foldl (enterVersion word) entered).1 (before ++ paths) ∧
      entered.2.Grown (paths.foldl (enterVersion word) entered).2 := by
  induction paths generalizing entered before with
  | nil => exact ⟨(List.append_nil before).symm ▸ shown, .refl _⟩
  | cons path paths ih =>
    obtain ⟨grown, e, added, shows⟩ := enterVersion_shows word entered path
    have next : List.Forall₂ (ShowsVersion (enterVersion word entered path).2 word)
        (enterVersion word entered path).1 (before ++ [path]) :=
      added ▸ forall₂_snoc (R := fun g => ShowsVersion g word) shown (fun _ _ h => h.grown grown) shows
    obtain ⟨all, grown'⟩ := ih _ next
    rw [List.append_assoc] at all
    exact ⟨all, grown.trans grown'⟩

/-- Each path is entered with a version. -/
theorem addVersions_shows (paths : List Text) (g : Graph) : ∃ word entries,
    (addVersions paths g).2.node word = .text "version" ∧
    (addVersions paths g).2.node (addVersions paths g).1 = .ordered entries [] ∧
    List.Forall₂ (ShowsVersion (addVersions paths g).2 word) entries paths ∧
    g.Grown (addVersions paths g).2 := by
  have same : addVersions paths g =
      (let entered := paths.foldl (enterVersion (g.add (.text "version")).1)
        ([], (g.add (.text "version")).2)
       entered.2.add (.ordered entered.1 [])) := rfl
  have word := Graph.node_add g (.text "version")
  have first := Graph.grown_add g (.text "version")
  obtain ⟨shown, second⟩ := foldl_enterVersion (g.add (.text "version")).1 paths
    ([], (g.add (.text "version")).2) .nil
  rw [same]
  dsimp only
  generalize paths.foldl (enterVersion (g.add (.text "version")).1)
    ([], (g.add (.text "version")).2) = entered at shown second
  have third := Graph.grown_add entered.2 (.ordered entered.1 [])
  exact ⟨_, entered.1, (second.trans third).node_eq word nofun, Graph.node_add _ _,
    shown.imp fun _ _ h => h.grown third, first.trans (second.trans third)⟩

/-- Enters a name with its tensor. -/
def enterTensor (entered : List (Nat × Nat) × Graph) (named : Text × Tensor) :
    List (Nat × Nat) × Graph :=
  let key := entered.2.add (.text named.1)
  let value := key.2.add (.tensor named.2)
  (entered.1 ++ [(key.1, value.1)], value.2)

theorem foldl_enterTensor (tensors : List (Text × Tensor)) (entered : List (Nat × Nat) × Graph)
    {before : List (Text × Tensor)} (shown : List.Forall₂ (ShowsTensor entered.2) entered.1 before) :
    List.Forall₂ (ShowsTensor (tensors.foldl enterTensor entered).2)
        (tensors.foldl enterTensor entered).1 (before ++ tensors) ∧
      entered.2.Grown (tensors.foldl enterTensor entered).2 := by
  induction tensors generalizing entered before with
  | nil => exact ⟨(List.append_nil before).symm ▸ shown, .refl _⟩
  | cons named tensors ih =>
    have key := Graph.node_add entered.2 (.text named.1)
    have first := Graph.grown_add entered.2 (.text named.1)
    have value := Graph.node_add (entered.2.add (.text named.1)).2 (.tensor named.2)
    have second := Graph.grown_add (entered.2.add (.text named.1)).2 (.tensor named.2)
    have next : List.Forall₂ (ShowsTensor (enterTensor entered named).2) (enterTensor entered named).1
        (before ++ [named]) :=
      forall₂_snoc shown (fun _ _ h => h.grown (first.trans second))
        ⟨second.node_eq key nofun, value⟩
    obtain ⟨all, grown⟩ := ih _ next
    rw [List.append_assoc] at all
    exact ⟨all, (first.trans second).trans grown⟩

/-- Each name is entered with its tensor. -/
theorem addTensors_shows (tensors : List (Text × Tensor)) (g : Graph) :
    List.Forall₂ (ShowsTensor (addTensors tensors g).2) (addTensors tensors g).1 tensors ∧
      g.Grown (addTensors tensors g).2 :=
  foldl_enterTensor tensors ([], g) .nil

/-- A graph of names with tensors, and of versions for paths. -/
structure ShowsState (g : Graph) (top : Nat) (tensors : List (Text × Tensor)) (paths : List Text)
    (entries versioned : List (Nat × Nat)) (versions word : Nat) : Prop where
  state : g.node top = .ordered entries [(metadataName, versions)]
  tensors : List.Forall₂ (ShowsTensor g) entries tensors
  metadata : g.node versions = .ordered versioned []
  constant : g.node word = .text "version"
  paths : List.Forall₂ (ShowsVersion g word) versioned paths

theorem graph_shows (m : Module) (memory : Memory) (skip : List Text) :
    (m.graph memory skip).2.memory = memory ∧ ∃ entries versioned versions word,
      ShowsState (m.graph memory skip).2 (m.graph memory skip).1 (m.saved skip) m.paths entries versioned
        versions word := by
  obtain ⟨word, versioned, hw, hv, versions, first⟩ := addVersions_shows m.paths { memory }
  obtain ⟨entries, second⟩ := addTensors_shows (m.saved skip) (addVersions m.paths { memory }).2
  have third := Graph.grown_add (addTensors (m.saved skip) (addVersions m.paths { memory }).2).2
    (.ordered (addTensors (m.saved skip) (addVersions m.paths { memory }).2).1
      [(metadataName, (addVersions m.paths { memory }).1)])
  have later := second.trans third
  exact ⟨(first.trans later).memory, _, versioned, _, word, Graph.node_add _ _,
    entries.imp fun _ _ h => h.grown third, later.node_eq hv nofun, later.node_eq hw nofun,
    versions.imp fun _ _ h => h.grown later⟩

theorem asOrdered_graph (m : Module) (memory : Memory) (skip : List Text) :
    (m.graph memory skip).2.asOrdered (m.graph memory skip).1 =
      .ok ((m.graph memory skip).1, (m.graph memory skip).2) := by
  obtain ⟨-, entries, versioned, versions, word, shows⟩ := graph_shows m memory skip
  rw [Graph.asOrdered, shows.state]

section State

variable {top versions word : Nat} {tensors : List (Text × Tensor)} {paths : List Text}
  {entries versioned : List (Nat × Nat)}

theorem ShowsState.plain (h : ShowsState g top tensors paths entries versioned versions word)
    (distinct : paths.Nodup) : g.Plain versions := by
  have one : 1 < Graph.integerLimit := by
    rw [Graph.integerLimit, Nat.one_lt_two_pow_iff]
    decide
  refine .of_items ?_ ?_
  · simp only [Graph.IsPlain, h.metadata, and_true]
    exact Graph.keysApart_of_names distinct (h.paths.imp fun _ _ h => h.1)
  · simp only [Graph.Holds, h.metadata, List.map_nil, List.not_mem_nil, or_false]
    rintro item ⟨e, he, rfl | rfl⟩
    · obtain ⟨path, -, key, -⟩ := exists_of_forall₂ h.paths he
      exact .of_text key
    · obtain ⟨path, -, -, version, value, number⟩ := exists_of_forall₂ h.paths he
      refine .of_items ?_ ?_
      · simp only [Graph.IsPlain, value]
        exact Graph.keysApart_of_names (List.nodup_singleton _) (.cons h.constant .nil)
      · simp only [Graph.Holds, value, List.mem_singleton, exists_eq_left]
        rintro item (rfl | rfl)
        · exact .of_text h.constant
        · refine .of_items ?_ ?_
          · simp only [Graph.IsPlain, number, currentVersion]
            omega
          · simp only [Graph.Holds, number, false_implies, implies_true]

theorem ShowsState.mapsTensors (h : ShowsState g top tensors paths entries versioned versions word)
    (names : (tensors.map Prod.fst).Nodup) (distinct : paths.Nodup) :
    g.MapsTensors top tensors [(metadataName, versions)] where
  entries := ⟨entries, h.state, h.tensors⟩
  distinct := names
  names := by
    have allowed : isAttributeName metadataName = true := by
      decide
    exact ⟨List.nodup_singleton _, List.forall_mem_singleton.2 allowed⟩
  plain := by
    rw [List.forall_mem_singleton]
    exact h.plain distinct

/-- The objects in the graph of a state. -/
inductive StatePart (g : Graph) (top versions word : Nat) : Nat → Prop
  | state : StatePart g top versions word top
  | metadata : StatePart g top versions word versions
  | text {id : Nat} {t : Text} (node : g.node id = .text t) (short : t.utf8.length < Encoder.wordLimit) :
    StatePart g top versions word id
  | tensor {id : Nat} {t : Tensor} (node : g.node id = .tensor t) : StatePart g top versions word id
  | version {id version : Nat} (node : g.node id = .dict [(word, version)])
    (number : g.node version = .int currentVersion) : StatePart g top versions word id
  | number {id : Nat} (node : g.node id = .int currentVersion) : StatePart g top versions word id

theorem ShowsState.part_of_reaches (h : ShowsState g top tensors paths entries versioned versions word)
    (names : ∀ named ∈ tensors, named.1.utf8.length < Encoder.wordLimit)
    (short : ∀ path ∈ paths, path.utf8.length < Encoder.wordLimit) {id : Nat} (hr : g.Reaches top id) :
    StatePart g top versions word id := by
  induction hr with
  | refl => exact .state
  | tail _ hh ih =>
    cases ih with
    | state =>
      simp only [Graph.Holds, h.state, List.map_cons, List.map_nil, List.mem_singleton] at hh
      obtain ⟨e, he, rfl | rfl⟩ | rfl := hh
      · obtain ⟨named, hn, key, -⟩ := exists_of_forall₂ h.tensors he
        exact .text key (names named hn)
      · obtain ⟨named, hn, -, value⟩ := exists_of_forall₂ h.tensors he
        exact .tensor value
      · exact .metadata
    | metadata =>
      simp only [Graph.Holds, h.metadata, List.map_nil, List.not_mem_nil, or_false] at hh
      obtain ⟨e, he, rfl | rfl⟩ := hh
      · obtain ⟨path, hp, key, -⟩ := exists_of_forall₂ h.paths he
        exact .text key (short path hp)
      · obtain ⟨path, hp, -, version, value, number⟩ := exists_of_forall₂ h.paths he
        exact .version value number
    | version node number =>
      simp only [Graph.Holds, node, List.mem_singleton, exists_eq_left] at hh
      obtain rfl | rfl := hh
      · exact .text h.constant (by decide)
      · exact .number number
    | text node | tensor node | number node => simp only [Graph.Holds, node] at hh

/-- All texts of a state are names, paths, and words of its own. -/
theorem ShowsState.shortTexts (h : ShowsState g top tensors paths entries versioned versions word)
    (names : ∀ named ∈ tensors, named.1.utf8.length < Encoder.wordLimit)
    (short : ∀ path ∈ paths, path.utf8.length < Encoder.wordLimit) : g.ShortTexts top := by
  constructor
  · intro id t hr ht
    cases h.part_of_reaches names short hr with
    | state => cases ht.symm.trans h.state
    | metadata => cases ht.symm.trans h.metadata
    | text node short =>
      cases ht.symm.trans node
      exact short
    | tensor node | version node | number node => cases ht.symm.trans node
  · intro id listed attributes hr ht
    have word : metadataName.utf8.length < Encoder.wordLimit := by
      decide
    cases h.part_of_reaches names short hr with
    | state =>
      cases ht.symm.trans h.state
      exact List.forall_mem_singleton.2 word
    | metadata =>
      cases ht.symm.trans h.metadata
      exact List.forall_mem_nil _
    | text node | tensor node | version node | number node => cases ht.symm.trans node

end State

end Module

end Checkpoint
