import Checkpoint.Proofs.Pickle.Keys
import Checkpoint.Proofs.Pickle.Reference

/-! A machine that runs what has been written for an object ends with a value that shows it. -/

namespace Checkpoint.Pickle

open Archive Effect Encoder

/-- What the objects under an object have to be for a machine to show them: no tuple holds itself,
keys are apart, attributes have names that can be set, and storage classes have an element type. -/
structure Graph.Restorable (g : Graph) (top : Nat) : Prop where
  grounded : g.TuplesGrounded top
  dictKeys : ∀ id entries, g.Reaches top id → g.node id = .dict entries → g.KeysApart entries
  orderedKeys : ∀ id entries attributes, g.Reaches top id →
    g.node id = .ordered entries attributes → g.KeysApart entries
  names : ∀ id entries attributes, g.Reaches top id → g.node id = .ordered entries attributes →
    (attributes.map Prod.fst).Nodup ∧ ∀ a ∈ attributes, isAttributeName a.1 = true
  classes : ∀ id name, g.Reaches top id → g.node id = .storageClass name →
    ∃ d, DType.ofStorageClass? name = some d

/-- The tensors among those objects are the ones that are written. -/
structure Scene.Shown (S : Scene) (top : Nat) : Prop extends S.graph.Restorable top where
  tensors : ∀ id t, S.graph.Reaches top id → S.graph.node id = .tensor t → S.tensors t

section Leaves

variable {S : Scene} {N : Nat → Prop} {e : Encoder} {id : Nat} {memo : Table Identity Nat}
  {w : World} {m : Machine} {p p' : Nat}

theorem writes_float (he : Orderly True e) {x : Double} (hg : S.graph.node id = .float x) :
    Writes S N e (emit (.float x)) (.showing S id) := by
  apply writes_push (i := .float x) (v := fun p => .float x p) he ⟨rfl, rfl⟩ trivial ⟨nofun, nofun⟩
    (fun _ => rfl)
  intro memo w m p p' sim hp
  have single : (S.graph.node id).isFilledTuple = false := by
    rw [hg]
    rfl
  exact ⟨_, sim.withOrigin hp single, grew_withOrigin sim hp _ id, _, rfl, .float hg (if_pos rfl)⟩

theorem stands_ofText {t : Text} (hg : S.graph.node id = .text t) (v : Value) :
    S.Stands w (Identity.ofText t (.node id)) v ↔ v = .text t := by
  unfold Identity.ofText
  split
  · exact Iff.rfl
  · constructor
    · intro h
      change S.Shows w id v at h
      cases h <;> simp_all [Node.isContainer]
    · rintro rfl
      exact .text hg

/-- What is fetched for an object shows it. -/
theorem shows_of_stands {top : Nat} (shown : S.Shown top) (hid : S.graph.Reaches top id) {v : Value}
    (hv : S.Stands w (S.graph.identity id) v) : S.Shows w id v := by
  unfold Graph.identity at hv
  split at hv
  · next t hg =>
    rw [(stands_ofText hg v).1 hv]
    exact .text hg
  · next name hg =>
    obtain ⟨d, hd⟩ := shown.classes id name hid hg
    cases hv.symm.trans (findGlobal_storageClass hd)
    exact .storageClass hg hd
  · exact hv

theorem tracks_unattributed (he : Orderly True e) :
    Tracks S N e (pure ()) Unattributed (Attributed S []) := by
  apply (tracks_pure he).mono (fun _ h => h) (fun _ _ h => h)
  rintro w m _ _ - ⟨rfl, rfl⟩ o below entries _ ho
  exact ⟨.refl _ _, rfl, {}, ho, .nil⟩

theorem Took.unattributed {items : List (Nat × Nat)} {w' : World} {m' : Machine}
    (took : Took S .ordered (.entry S) [] items w m w' m') (h : Emptied .ordered w m) :
    Unattributed w' m' := by
  obtain ⟨o, below, hs, ho⟩ := h
  obtain ⟨_, hs', held, ho', _⟩ := took o below hs
  exact ⟨o, below, _, by rw [hs', hs], ho'⟩

theorem Took.attributed {entries : List (Nat × Nat)} {attributes : List (Text × Nat)}
    {w' w'' : World} {m' m'' : Machine} (hg : S.graph.node id = .ordered entries attributes)
    (took : Took S .ordered (.entry S) [] entries w m w' m')
    (attributed : Attributed S attributes w' m' w'' m'') : Completed S .ordered id w m w'' m'' := by
  intro o below hs ho
  obtain ⟨fills, hs', held, ho', hheld⟩ := took o below hs
  obtain ⟨fills', hs'', fields, ho'', shows⟩ := attributed o below _ (by rw [hs', hs]) ho'
  refine ⟨fills.trans fills' ?_, hs''.trans hs', ?_⟩
  · rintro _ rfl
    exact Heap.get?_lt_size ho
  · simp only [Filled, hg]
    exact ⟨_, fields, ho'', (Image.entries_of_all hheld).mono fills'.world, shows⟩

/-- An instruction that pushes a constant writes an object that the constant shows. -/
theorem writes_leaf (he : Orderly True e) {i : Instruction} {v : Value} (pushes : i.Pushes v)
    (shows : ∀ w, S.Shows w id v) : Writes S N e (emit i) (.showing S id) := by
  apply (writes_constant he ⟨pushes.stored, pushes.fetched⟩ pushes.readable pushes.going
    (pushes.run S.config)).mono (fun _ h => h)
  rintro w _ _ rfl
  exact ⟨v, rfl, shows w⟩

theorem writes_text (he : Orderly True e) {t : Text} (hg : S.graph.node id = .text t) (hN : N id) :
    Writes S N e (saveText (S.graph.identity id) t) (.showing S id) := by
  rw [Graph.identity_of_text hg]
  have written : Writes S N e (saveText (Identity.ofText t (.node id)) t) (.exactly (.text t)) := by
    apply writes_saveText he
    · unfold Identity.ofText
      split <;> nofun
    · intro n hn
      obtain rfl := Graph.identity_eq_node ((Graph.identity_of_text hg).trans hn)
      exact hN
    · exact fun w => (stands_ofText hg _).2 rfl
    · exact fun _ _ w v hv => (stands_ofText hg v).1 hv
  apply written.mono (fun _ h => h)
  rintro w _ _ rfl
  exact ⟨_, rfl, .text hg⟩

end Leaves

section Containers

variable {S : Scene} {N : Nat → Prop} {e : Encoder} {config : Config} {fuel id : Nat}
  {entries : List (Nat × Nat)} {attributes : List (Text × Nat)}

/-- Whenever an object is written, the value that is pushed shows it. -/
def WritesObject (S : Scene) (N : Nat → Prop) (config : Config) (fuel id : Nat) : Prop :=
  ∀ e, Orderly True e → Writes S N e (save config S.graph fuel id) (.showing S id)

theorem WritesObject.mono {M : Nat → Prop} (h : WritesObject S N config fuel id)
    (hN : ∀ n, N n → M n) : WritesObject S M config fuel id :=
  fun e he => (h e he).mono hN fun _ _ _ hv => hv

theorem writes_saveEntry {entry : Nat × Nat} (h : WritesObject S N config fuel entry.1 ∧
    WritesObject S N config fuel entry.2) (he : Orderly True e) :
    Writes S N e (saveEntry config S.graph fuel entry) (.entry S entry) :=
  (h.1 e he).andThen (fun _ h => h) (Image.lasting_showing S _).stable fun e' he' _ => h.2 e' he'

theorem writes_list (he : Orderly True e) {items : List Nat} (hg : S.graph.node id = .list items)
    (absent : .node id ∉ storesOf e.history) (hN : N id)
    (each : ∀ item ∈ items, WritesObject S N config fuel item) :
    Writes S N e (emit .emptyList >>= fun _ => memoize (.node id) >>= fun _ =>
      saveItems config .append .appends (items.map (save config S.graph fuel))) (.showing S id) := by
  apply writes_container (k := .list) hN (by rw [hg]; rfl) absent (tracks_empty he (.inl ⟨rfl, rfl⟩))
  intro e' he'
  have filled : Tracks S N e' (saveItems config .append .appends (items.map (save config S.graph fuel)))
      (Opened .list (Image.showing S) []) (Took S .list (.showing S) [] items) := by
    apply tracks_saveItems (k := .list) (K := .showing S) he' (Image.lasting_showing S) _ each
      (fun _ _ _ _ _ _ => trivial)
    rintro item w h _ ⟨_, rfl, _⟩
    rfl
  apply filled.mono (fun _ h => h) (fun _ _ h => h.opened)
  intro w m w' m' _ took
  apply took.completed
  intro w h o held ho hheld
  simp only [Filled, hg]
  exact ⟨held, ho, Image.forall₂_of_all hheld⟩

/-- The entries of a mapping are entered as they are, since their keys are apart. -/
theorem tracks_entries {k : Kind} (hk : k = .dict ∨ k = .ordered) (he : Orderly True e)
    (apart : S.graph.KeysApart entries)
    (each : ∀ entry ∈ entries, WritesObject S N config fuel entry.1 ∧
      WritesObject S N config fuel entry.2) :
    Tracks S N e (saveItems config .setItem .setItems (entries.map (saveEntry config S.graph fuel)))
      (Emptied k) (Took S k (.entry S) [] entries) := by
  have admits (l : List (Nat × Nat)) (hl : l <+: entries) (w : World) (h : Heap) (values : List Value)
      (hv : Image.all (Image.entry S) l w h values) : k.Admits values := by
    have keyed := keyed_of_shows (apart.of_prefix hl) (Image.entries_of_all hv)
    obtain rfl | rfl := hk <;> exact keyed
  have filled : Tracks S N e (saveItems config k.single k.several
      (entries.map (saveEntry config S.graph fuel))) (Opened k (Image.entry S) [])
      (Took S k (.entry S) [] entries) := by
    apply tracks_saveItems he (Image.lasting_entry S) _
      (fun entry hi e he => writes_saveEntry (each entry hi) he) admits
    intro entry w h values hv
    have two := Image.length_entry hv
    obtain rfl | rfl := hk <;> exact two
  have opened := filled.mono (fun _ h => h) (fun _ _ (h : Emptied k _ _) => h.opened)
    fun _ _ _ _ _ h => h
  obtain rfl | rfl := hk <;> exact opened

theorem writes_dict (he : Orderly True e) (hg : S.graph.node id = .dict entries)
    (apart : S.graph.KeysApart entries) (absent : .node id ∉ storesOf e.history) (hN : N id)
    (each : ∀ entry ∈ entries, WritesObject S N config fuel entry.1 ∧
      WritesObject S N config fuel entry.2) :
    Writes S N e (emit .emptyDict >>= fun _ => memoize (.node id) >>= fun _ =>
      saveItems config .setItem .setItems (entries.map (saveEntry config S.graph fuel)))
      (.showing S id) := by
  apply writes_container (k := .dict) hN (by rw [hg]; rfl) absent (tracks_empty he (.inr ⟨rfl, rfl⟩))
  intro e' he'
  apply (tracks_entries (.inl rfl) he' apart each).mono (fun _ h => h) (fun _ _ h => h)
  intro w m w' m' _ took
  apply took.completed
  intro w h o held ho hheld
  simp only [Filled, hg]
  exact ⟨_, ho, Image.entries_of_all hheld⟩

theorem tracks_saveAttributes (he : Orderly True e) (distinct : (attributes.map Prod.fst).Nodup)
    (names : ∀ a ∈ attributes, isAttributeName a.1 = true)
    (each : ∀ a ∈ attributes, WritesObject S N config fuel a.2) :
    Tracks S N e (saveAttributes config S.graph fuel attributes) Unattributed
      (Attributed S attributes) := by
  unfold saveAttributes
  split
  · next empty =>
    rw [List.isEmpty_iff.1 empty]
    exact tracks_unattributed he
  · exact tracks_attributes he distinct names each

theorem writes_ordered (he : Orderly True e) (hg : S.graph.node id = .ordered entries attributes)
    (apart : S.graph.KeysApart entries) (distinct : (attributes.map Prod.fst).Nodup)
    (names : ∀ a ∈ attributes, isAttributeName a.1 = true) (absent : .node id ∉ storesOf e.history)
    (hN : N id) (each : ∀ entry ∈ entries, WritesObject S N config fuel entry.1 ∧
      WritesObject S N config fuel entry.2)
    (values : ∀ a ∈ attributes, WritesObject S N config fuel a.2) :
    Writes S N e (orderedDict >>= fun _ => memoize (.node id) >>= fun _ =>
      saveItems config .setItem .setItems (entries.map (saveEntry config S.graph fuel)) >>= fun _ =>
        saveAttributes config S.graph fuel attributes) (.showing S id) := by
  apply writes_container (k := .ordered) hN (by rw [hg]; rfl) absent (tracks_orderedDict he)
  intro e' he'
  apply (tracks_entries (.inr rfl) he' apart each).bind (fun _ h => h)
    fun e'' he'' _ => tracks_saveAttributes he'' distinct names values
  intro w m w' m' emptied took
  exact ⟨took.unattributed emptied, fun w'' m'' attributed => took.attributed hg attributed⟩

end Containers

section Objects

variable {S : Scene} {config : Config} {top : Nat}

theorem writes_throw {N : Nat → Prop} {e : Encoder} {error : Error} {K : Image} :
    Writes S N e (throw error) K := by
  constructor
  rw [ensures_throw]
  trivial

/-- Writing an object pushes a value that shows it. -/
theorem writes_save (shown : S.Shown top) {id : Nat} (hid : S.graph.Reaches top id) (fuel : Nat) :
    WritesObject S (S.graph.Reaches id) config fuel id := by
  induction fuel generalizing id with
  | zero => exact fun e he => writes_throw
  | succ fuel ih =>
    -- An item stores what it reaches, which a tuple does not reach from itself; so the tuple is absent
    -- from the memo when it is stored.
    have child {item : Nat} (h : S.graph.Holds id item) :
        WritesObject S (fun n => Relation.TransGen S.graph.Holds id n) config fuel item :=
      (ih (hid.tail h)).mono fun n hn => .head' h hn
    have below {item : Nat} (h : S.graph.Holds id item) :
        WritesObject S (S.graph.Reaches id) config fuel item :=
      (child h).mono fun n hn => hn.to_reflTransGen
    intro e he
    have written {o : Identity} {x : Encoding Unit} (own : S.graph.identity id = o)
        (h : o ∉ storesOf e.history → Writes S (S.graph.Reaches id) e x (.showing S id)) :
        Writes S (S.graph.Reaches id) e (once o x) (.showing S id) := by
      apply writes_once he _ h
      rintro _ _ w _ _ ⟨v, rfl, hv⟩
      exact ⟨v, rfl, shows_of_stands shown hid (own ▸ hv)⟩
    cases hg : S.graph.node id with
    | none =>
      rw [save_node hg nofun nofun]
      exact written (Graph.identity_of_node hg nofun nofun) fun _ =>
        writes_leaf he ⟨rfl, rfl, trivial, ⟨nofun, nofun⟩, fun _ _ => rfl⟩ fun _ => .none hg
    | bool b =>
      rw [save_node hg nofun nofun]
      exact written (Graph.identity_of_node hg nofun nofun) fun _ =>
        writes_leaf he ⟨rfl, rfl, trivial, ⟨nofun, nofun⟩, fun _ _ => rfl⟩ fun _ => .bool hg
    | int n =>
      rw [save_node hg nofun nofun]
      refine written (Graph.identity_of_node hg nofun nofun) fun _ =>
        (writes_saveInt he n).mono (fun _ h => h) ?_
      rintro w _ _ rfl
      exact ⟨_, rfl, .int hg⟩
    | float x =>
      rw [save_node hg nofun nofun]
      exact written (Graph.identity_of_node hg nofun nofun) fun _ => writes_float he hg
    | text t =>
      rw [save_text hg]
      exact written rfl fun _ => writes_text he hg .refl
    | tuple items =>
      rw [save_tuple hg]
      exact written (Graph.identity_of_node hg nofun nofun) fun absent =>
        writes_saveTuple he hg (fun n hn => hn.to_reflTransGen) absent (shown.grounded id items hid hg)
          .refl fun item hi => child (Graph.holds_of_tuple hg item hi)
    | list items =>
      rw [save_list hg]
      exact written (Graph.identity_of_node hg nofun nofun) fun absent =>
        writes_list he hg absent .refl fun item hi => below (Graph.holds_of_list hg item hi)
    | dict entries =>
      rw [save_dict hg]
      exact written (Graph.identity_of_node hg nofun nofun) fun absent =>
        writes_dict he hg (shown.dictKeys id entries hid hg) absent .refl
          fun e he => (Graph.holds_of_dict hg e he).imp below below
    | ordered entries attributes =>
      obtain ⟨distinct, names⟩ := shown.names id entries attributes hid hg
      rw [save_ordered hg]
      exact written (Graph.identity_of_node hg nofun nofun) fun absent =>
        writes_ordered he hg (shown.orderedKeys id entries attributes hid hg) distinct names absent .refl
          (fun e he => (Graph.holds_of_ordered hg e he).imp below below)
          fun a ha => below (Graph.holds_of_attribute hg a ha)
    | tensor t =>
      rw [save_tensor hg]
      exact written (Graph.identity_of_node hg nofun nofun) fun absent =>
        writes_saveTensor he hg (shown.tensors id t hid hg) .refl absent
    | storageClass name =>
      obtain ⟨d, hd⟩ := shown.classes id name hid hg
      rw [save_storageClass hg hd]
      refine written rfl fun _ => (writes_saveGlobal he isLine_storageModule (isLine_storageClass hd)
        (findGlobal_storageClass hd)).mono (fun _ h => h) ?_
      rintro w _ _ rfl
      exact ⟨_, rfl, .storageClass hg hd⟩
    | mapping | bytes | emptySet =>
      rw [save_node hg nofun nofun]
      exact written (Graph.identity_of_node hg nofun nofun) fun _ => writes_throw

end Objects

end Checkpoint.Pickle
