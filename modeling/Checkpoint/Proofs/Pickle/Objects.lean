import Checkpoint.Proofs.Pickle.Filling

/-! How containers come back as objects.  A container is made empty, gets its place, and is filled;
an ordered mapping then gets its attributes. -/

namespace Checkpoint.Pickle

open Archive Effect Encoder

namespace Machine

variable {config : Config} {c : Cursor} {m : Machine} {E : Error → Machine → Prop}
  {Q : Unit → Machine → Prop} {o state birth : Nat} {below items : List Value}
  {entries : Table Value Value} {fields : Table Text Value}

theorem ensures_reduce {constructor : Constructor} {v : Value} {heap : Heap}
    (hs : m.stack.items = .tuple items birth :: .constructor constructor :: below)
    (hc : constructor.call m.heap items c.position = .ok (v, heap))
    (hq : Q () { m with heap, stack := { m.stack with items := v :: below } }) :
    (execute config c .reduce).Ensures m Q E := by
  change (reduce c).Ensures m Q E
  simp only [reduce, ensures_bind, ensures_pop, hs, ensures_top, ensures_get, hc, ensures_set]
  exact hq

theorem ensures_setAttributes {added : List (Text × Value)}
    (ho : m.heap.get? o = some (.ordered entries fields))
    (names : ∀ a ∈ added, isAttributeName a.1 = true)
    (distinct : ((fields.entries ++ added).map Prod.fst).Nodup)
    (hq : Q () { m with heap := m.heap.set o (.ordered entries ⟨fields.entries ++ added⟩) }) :
    (setAttributes o (added.map fun a => (.text a.1, a.2))).Ensures m Q E := by
  induction added generalizing m fields with
  | nil =>
    have same : m.heap.set o (.ordered entries ⟨fields.entries ++ []⟩) = m.heap := by
      rw [List.append_nil]
      exact Heap.set_of_get? ho
    rw [same] at hq
    exact (ensures_pure ()).2 hq
  | cons a added ih =>
    have absent : fields.contains a.1 = false := by
      simp only [List.map_append, List.map_cons, List.nodup_append'] at distinct
      simp only [Table.contains, List.any_eq_false]
      intro entry hentry heq
      exact distinct.2.2 (List.mem_map_of_mem hentry) (eq_of_beq heq ▸ List.mem_cons_self)
    have inserted : (fields.insert a.1 a.2).entries = fields.entries ++ [a] :=
      Table.entries_insert_of_absent absent a.2
    simp only [List.map_cons, setAttributes, ensures_bind, ensures_get, ho,
      names a List.mem_cons_self, if_true, ensures_setObject]
    apply ih (Heap.get?_set_self (Heap.get?_lt_size ho) _)
    · exact fun b hb => names b (List.mem_cons_of_mem _ hb)
    · rw [inserted, List.append_assoc]
      exact distinct
    · rw [inserted, Heap.set_set, List.append_assoc]
      exact hq

theorem ensures_build {added : List (Text × Value)}
    (hs : m.stack.items = .object state :: .object o :: below)
    (ho : m.heap.get? o = some (.ordered entries fields))
    (hstate : m.heap.get? state = some (.dict ⟨added.map fun a => (.text a.1, a.2)⟩))
    (names : ∀ a ∈ added, isAttributeName a.1 = true)
    (distinct : ((fields.entries ++ added).map Prod.fst).Nodup)
    (hq : Q () { m with
      heap := m.heap.set o (.ordered entries ⟨fields.entries ++ added⟩)
      stack := { m.stack with items := .object o :: below } }) :
    (execute config c .build).Ensures m Q E := by
  change (build c).Ensures m Q E
  simp only [build, ensures_bind, ensures_pop, hs, ensures_top, ensures_get, ho, hstate]
  exact ensures_setAttributes ho names distinct hq

end Machine

section Containers

variable {S : Scene} {N : Nat → Prop} {e : Encoder} {k : Kind} {id o : Nat} {w w' w'' : World}
  {m m' m'' : Machine}

/-- An empty container has been made and pushed. -/
def Began (S : Scene) (k : Kind) (w : World) (m : Machine) (w' : World) (m' : Machine) : Prop :=
  ∃ h, S.Grew w m.heap w' h ∧ (∀ id o, w'.place id = some o → o < h.objects.size) ∧
    m'.heap = (h.allocate (k.make [])).2 ∧ m'.stack = m.stack.above [.object h.objects.size]

/-- An empty container has got its place. -/
def Placed (S : Scene) (k : Kind) (id : Nat) (w : World) (m : Machine) (w' : World) (m' : Machine) :
    Prop :=
  ∃ h w₁, S.Grew w m.heap w₁ h ∧ w₁.place id = none ∧ w' = w₁.withPlace id h.objects.size ∧
    m'.heap = (h.allocate (k.make [])).2 ∧ m'.stack = m.stack.above [.object h.objects.size]

/-- The empty container on top has been filled. -/
def Completed (S : Scene) (k : Kind) (id : Nat) (w : World) (m : Machine) (w' : World)
    (m' : Machine) : Prop :=
  ∀ o below, m.stack.items = .object o :: below → m.heap.get? o = some (k.make []) →
    S.Fills o w m.heap w' m'.heap ∧ m'.stack = m.stack ∧ Filled S.graph S.uses w' m'.heap id o

theorem tracks_empty (he : Orderly True e) {i : Instruction}
    (hi : i = .emptyList ∧ k = .list ∨ i = .emptyDict ∧ k = .dict) :
    Tracks S N e (emit i) (fun _ _ => True) (Began S k) := by
  have plain : i.storedAt? = none ∧ i.fetchedAt? = none := by
    obtain ⟨rfl, _⟩ | ⟨rfl, _⟩ := hi <;> exact ⟨rfl, rfl⟩
  have readable : i.Readable := by
    obtain ⟨rfl, _⟩ | ⟨rfl, _⟩ := hi <;> trivial
  have going : i.Ordinary := by
    obtain ⟨rfl, _⟩ | ⟨rfl, _⟩ := hi <;> exact ⟨nofun, nofun⟩
  have run (c : Cursor) : Machine.execute S.config c i =
      Machine.pushObject S.config (k.make []) := by
    obtain ⟨rfl, rfl⟩ | ⟨rfl, rfl⟩ := hi <;> rfl
  apply tracks_emit he plain readable going
  rintro e' w m _ _ p next - ⟨rfl, rfl⟩ sim hp -
  rw [run, Machine.ensures_pushObject, Machine.ensures_push]
  split
  · next full => exact .inl ⟨rfl, full⟩
  · intro trace
    refine ⟨_, sim.at hp.le rfl ?_ rfl, _, .refl _ _, fun id o ho => (sim.placed id o ho).1, rfl, rfl⟩
    change _ ≤ (Heap.allocate _ _).2.objects.size
    rw [Heap.size_allocate]
    exact Nat.le_succ _

theorem writes_constructor (he : Orderly True e) (c : Constructor) :
    Writes S N e (saveGlobal c.module c.name) (.exactly (.constructor c)) := by
  have lines : Instruction.IsLine c.module ∧ Instruction.IsLine c.name := by
    cases c <;> decide
  apply writes_saveGlobal he lines.1 lines.2
  cases c <;> rfl

theorem tracks_orderedDict (he : Orderly True e) :
    Tracks S N e orderedDict (fun _ _ => True) (Began S .ordered) := by
  have pushed : Writes S N e (saveGlobal Constructor.orderedDict.module
      Constructor.orderedDict.name >>= fun _ => emit .emptyTuple)
      ((Image.exactly (.constructor .orderedDict)).andThen
        fun _ _ values => ∃ birth, values = [.tuple [] birth]) := by
    apply (writes_constructor he .orderedDict).andThen (fun _ h => h)
      (Image.lasting_exactly _).stable
    intro e' he' _
    apply writes_push (i := .emptyTuple) (v := fun p => .tuple [] p) he' ⟨rfl, rfl⟩ trivial
      ⟨nofun, nofun⟩
      (fun _ => rfl)
    intro memo w m p p' sim hp
    exact ⟨w, sim.at hp.le rfl le_rfl rfl, .refl _ _, p', rfl⟩
  unfold orderedDict
  rw [← bind_assoc]
  apply pushed.emit (i := .reduce) ⟨rfl, rfl⟩ trivial nofun nofun
  rintro e' w m w₁ m₁ p next - ⟨grew, _, ⟨_, _, rfl, rfl, birth, rfl⟩, hs⟩ sim hp -
  have stacked : m₁.stack.items =
      .tuple [] birth :: .constructor .orderedDict :: m.stack.items := by
    rw [hs]
    rfl
  apply Machine.ensures_reduce stacked rfl
  intro trace
  refine ⟨w₁, sim.at hp.le rfl ?_ rfl, m₁.heap, grew, fun id o ho => (sim.placed id o ho).1, rfl, ?_⟩
  · change _ ≤ (Heap.allocate _ _).2.objects.size
    rw [Heap.size_allocate]
    exact Nat.le_succ _
  · rw [hs]
    rfl

theorem stored_placed {memo : Table Identity Nat} {P : World → Machine → Prop}
    (hg : (S.graph.node id).isContainer = true) (absent : memo.contains (.node id) = false) :
    Stored S memo (.node id) P (Began S k) (Placed S k id) := by
  rintro w m w₁ m₁ - ⟨h, grew, placed, hh, hs⟩
  refine ⟨.object h.objects.size, m.stack.items, by rw [hs]; rfl, ?_⟩
  intro p p' trace sim hp
  have fresh (id' : Nat) : w₁.place id' ≠ some h.objects.size :=
    fun hid => lt_irrefl _ (placed id' _ hid)
  refine ⟨_, sim.place absent hg ?_ fresh hp trace, h, w₁, grew, sim.place_eq_none absent, rfl, hh,
    hs⟩
  rw [hh, Heap.size_allocate]
  exact Nat.lt_succ_self _

/-- A new object has been filled: what was there before it is as it was, and what has been placed
since is filled if the new object is. -/
theorem grew_of_allocate {w₁ : World} {h₀ h h' : Heap} {object : Object}
    (grew : S.Grew w h₀ w₁ h) (world : w₁.Extends w')
    (fills : S.Fills h.objects.size w' (h.allocate object).2 w'' h')
    (placed : ∀ id o, w'.place id = some o → w₁.place id = some o ∨
      h.objects.size ≤ o ∧ Filled S.graph S.uses w'' h' id o) : S.Grew w h₀ w'' h' := by
  have size := Heap.size_allocate h object
  have kept (o : Nat) (ho : o < h.objects.size) : h'.get? o = h.get? o := by
    rw [fills.kept o (by omega) (Nat.ne_of_lt ho)]
    exact Heap.get?_allocate_of_lt ho _
  have world := world.trans fills.world
  have larger := grew.size
  have largest := fills.size
  refine ⟨grew.world.trans world, by omega, ?_, ?_⟩
  · intro o ho _
    rw [kept o (by omega)]
    exact grew.kept o ho not_false
  · intro id o ho
    obtain ho | ⟨hle, hf⟩ := fills.filled id o ho
    · obtain ho | ⟨hle, hf⟩ := placed id o ho
      · obtain ho | ⟨hle, hf⟩ := grew.filled id o ho
        · exact .inl ho
        · exact .inr ⟨hle, hf.mono world (kept o hf.lt_size)⟩
      · exact .inr ⟨by omega, hf⟩
    · exact .inr ⟨by omega, hf⟩

theorem isContainer_of_filled {h : Heap} (hf : Filled S.graph S.uses w h id o) :
    (S.graph.node id).isContainer = true := by
  unfold Filled at hf
  split at hf
  next hg => rw [hg]; rfl
  next hg => rw [hg]; rfl
  next hg => rw [hg]; rfl
  next => exact hf.elim

theorem Placed.completed (hp : Placed S k id w m w' m') (hc : Completed S k id w' m' w'' m'') :
    Pushed S (.showing S id) w m w'' m'' := by
  obtain ⟨h, w₁, grew, free, rfl, hh, hs⟩ := hp
  have made : m'.heap.get? h.objects.size = some (k.make []) := by
    rw [hh]
    exact Heap.get?_allocate_self ..
  obtain ⟨fills, hs', filled⟩ := hc h.objects.size m.stack.items (by rw [hs]; rfl) made
  rw [hh] at fills
  have here : w''.place id = some h.objects.size := fills.world.place _ _ (if_pos rfl)
  have container := isContainer_of_filled filled
  refine ⟨grew_of_allocate grew (World.extends_withPlace free _) fills ?_, [.object h.objects.size],
    ⟨_, rfl, .object container here⟩, ?_⟩
  · intro id' o ho
    change (if id' = id then some h.objects.size else w₁.place id') = some o at ho
    split at ho
    · next heq =>
      subst heq
      cases ho
      exact .inr ⟨le_rfl, filled⟩
    · exact .inl ho
  · rw [hs', hs]
    rfl

/-- An empty container is on top. -/
def Emptied (k : Kind) (_ : World) (m : Machine) : Prop :=
  ∃ o below, m.stack.items = .object o :: below ∧ m.heap.get? o = some (k.make [])

theorem Emptied.opened {α : Type} {K : α → Image} (h : Emptied k w m) : Opened k K [] w m := by
  obtain ⟨o, below, hs, ho⟩ := h
  exact ⟨o, below, [], hs, ho, rfl⟩

theorem writes_container {start fill : Encoding Unit} (hN : N id)
    (hg : (S.graph.node id).isContainer = true) (absent : .node id ∉ storesOf e.history)
    (hstart : Tracks S (fun _ => False) e start (fun _ _ => True) (Began S k))
    (hfill : ∀ e', Orderly True e' → Tracks S N e' fill (Emptied k) (Completed S k id)) :
    Writes S N e (start >>= fun _ => memoize (.node id) >>= fun _ => fill) (.showing S id) := by
  rw [← bind_assoc]
  have placed := hstart.memoize (M := N) (fun _ => False.elim) absent not_false hN
    fun memo free => stored_placed (P := fun _ _ => True) hg free
  apply placed.bind (fun _ h => h) fun e' he' _ => hfill e' he'
  intro w m w' m' _ hp
  refine ⟨?_, fun w'' m'' hc => hp.completed hc⟩
  obtain ⟨h, w₁, grew, free, rfl, hh, hs⟩ := hp
  refine ⟨h.objects.size, m.stack.items, by rw [hs]; rfl, ?_⟩
  rw [hh]
  exact Heap.get?_allocate_self ..

theorem Took.completed {α : Type} {K : α → Image} {items : List α}
    (filled : ∀ w h o held, h.get? o = some (k.make held) → Image.all K items w h held →
      Filled S.graph S.uses w h id o)
    (took : Took S k K [] items w m w' m') : Completed S k id w m w' m' := by
  intro o below hs _
  obtain ⟨fills, hs', held, ho, hheld⟩ := took o below hs
  exact ⟨fills, hs', filled _ _ _ _ ho hheld⟩

end Containers

namespace Image

variable {S : Scene} {w : World} {h : Heap} {values : List Value}

/-- The image of an entry: its key, then its value. -/
def entry (S : Scene) (e : Nat × Nat) : Image := (showing S e.1).andThen (showing S e.2)

/-- The image of an attribute: its name, then its value. -/
def field (S : Scene) (a : Text × Nat) : Image := (exactly (.text a.1)).andThen (showing S a.2)

theorem lasting_entry (S : Scene) (e : Nat × Nat) : (entry S e).Lasting :=
  (lasting_showing S e.1).andThen (lasting_showing S e.2)

theorem lasting_field (S : Scene) (a : Text × Nat) : (field S a).Lasting :=
  (lasting_exactly _).andThen (lasting_showing S a.2)

theorem length_entry {e : Nat × Nat} (hv : entry S e w h values) : values.length = 2 := by
  obtain ⟨_, _, rfl, ⟨_, rfl, _⟩, ⟨_, rfl, _⟩⟩ := hv
  rfl

theorem length_field {a : Text × Nat} (hv : field S a w h values) : values.length = 2 := by
  obtain ⟨_, _, rfl, rfl, ⟨_, rfl, _⟩⟩ := hv
  rfl

theorem entries_of_all {entries : List (Nat × Nat)} (hv : all (entry S) entries w h values) :
    ShowsEntries S.graph S.uses w entries (Machine.pairs values) := by
  induction entries generalizing values with
  | nil =>
    obtain rfl := hv
    exact .nil
  | cons e entries ih =>
    obtain ⟨_, rest, rfl, ⟨_, _, rfl, ⟨k, rfl, hk⟩, ⟨v, rfl, hv⟩⟩, hrest⟩ := hv
    exact .cons ⟨hk, hv⟩ (ih hrest)

theorem fields_of_all {attributes : List (Text × Nat)}
    (hv : all (field S) attributes w h values) :
    ∃ fields : List (Text × Value), Machine.pairs values = fields.map (fun a => (.text a.1, a.2)) ∧
      ShowsAttributes S.graph S.uses w attributes fields := by
  induction attributes generalizing values with
  | nil =>
    obtain rfl := hv
    exact ⟨[], rfl, .nil⟩
  | cons a attributes ih =>
    obtain ⟨_, rest, rfl, ⟨_, _, rfl, rfl, ⟨v, rfl, hv⟩⟩, hrest⟩ := hv
    obtain ⟨fields, hfields, shows⟩ := ih hrest
    refine ⟨(a.1, v) :: fields, ?_, .cons ⟨rfl, hv⟩ shows⟩
    simp [Machine.pairs, hfields]

end Image

section Attributes

variable {S : Scene} {N : Nat → Prop} {e : Encoder} {attributes : List (Text × Nat)}
  {x : Nat → Encoding Unit}

theorem tracks_fresh {f : Identity → Encoding Unit} {P : World → Machine → Prop}
    {R : World → Machine → World → Machine → Prop} (he : Orderly True e)
    (h : ∀ e' n, Orderly True e' → n < e'.temporaries → e'.memo.get? (.temporary n) = none →
      Tracks S N e' (f (.temporary n)) P R) : Tracks S N e (fresh >>= f) P R := by
  let e₁ := { e with temporaries := e.temporaries + 1 }
  have he₁ : Orderly True e₁ := by
    refine ⟨he.memo, he.numbered, he.nodup, ?_⟩
    intro n hn
    exact Nat.lt_succ_of_lt (he.temporary n hn)
  have absent : e₁.memo.get? (.temporary e.temporaries) = none := by
    rw [Table.get?_eq_none_iff, ← Bool.not_eq_true, he₁.contains]
    exact fun hn => lt_irrefl _ (he.temporary _ hn)
  have tracks := h e₁ e.temporaries he₁ (Nat.lt_succ_self _) absent
  constructor
  unfold fresh
  simp only [ensures_bind, ensures_get, ensures_modify, ensures_pure]
  exact tracks.ensures

theorem writes_name (he : Orderly True e) (name : Text) :
    Writes S N e (fresh >>= fun o => saveText (Identity.ofText name o) name)
      (.exactly (.text name)) := by
  apply tracks_fresh he
  intro e' n he' hn absent
  unfold Identity.ofText
  split
  · refine writes_saveText (o := .short name) he' nofun nofun (fun _ => rfl) ?_
    intro _ _ _ _ hv
    exact hv
  · refine writes_saveText (o := .temporary n) he' ?_ nofun (fun _ => trivial) ?_
    · rintro _ ⟨⟩
      exact hn
    · intro k hk
      rw [absent] at hk
      cases hk

theorem writes_field (he : Orderly True e) {a : Text × Nat}
    (hx : ∀ e, Orderly True e → Writes S N e (x a.2) (.showing S a.2)) :
    Writes S N e (fresh >>= fun o => saveText (Identity.ofText a.1 o) a.1 >>= fun _ => x a.2)
      (.field S a) := by
  rw [← bind_assoc]
  apply (writes_name he a.1).andThen (fun _ h => h) (Image.lasting_exactly _).stable
  intro e' he' _
  exact hx e' he'

/-- The image of the mapping that holds attributes before they are set. -/
def Image.state (S : Scene) (attributes : List (Text × Nat)) : Image :=
  fun w h values => ∃ o fields, values = [.object o] ∧
    h.get? o = some (.dict ⟨fields.map fun a => (.text a.1, a.2)⟩) ∧
    ShowsAttributes S.graph S.uses w attributes fields

theorem keyed_fields {fields : List (Text × Value)} (distinct : (fields.map Prod.fst).Nodup) :
    Keyed (fields.map fun a => (.text a.1, a.2)) := by
  constructor
  · simp only [List.forall_mem_map]
    exact fun _ _ => rfl
  · rw [List.pairwise_map]
    apply (List.pairwise_map.1 distinct).imp
    intro a b hne
    simpa [Value.same] using hne

theorem fst_fields {w : World} {fields : List (Text × Value)}
    (shows : ShowsAttributes S.graph S.uses w attributes fields) :
    fields.map Prod.fst = attributes.map Prod.fst := by
  induction shows with
  | nil => rfl
  | cons h _ ih => rw [List.map_cons, List.map_cons, ih, h.1]

theorem writes_state (config : Config) (he : Orderly True e)
    (distinct : (attributes.map Prod.fst).Nodup)
    (hx : ∀ a ∈ attributes, ∀ e, Orderly True e → Writes S N e (x a.2) (.showing S a.2)) :
    Writes S N e (emit .emptyDict >>= fun _ => memoizeFresh >>= fun _ =>
      saveItems config .setItem .setItems (attributes.map fun a =>
        fresh >>= fun o => saveText (Identity.ofText a.1 o) a.1 >>= fun _ => x a.2))
      (.state S attributes) := by
  have admits (l : List (Text × Nat)) (hl : l <+: attributes) (w : World) (h : Heap)
      (values : List Value) (hv : Image.all (Image.field S) l w h values) :
      Kind.dict.Admits values := by
    obtain ⟨fields, hfields, shows⟩ := Image.fields_of_all hv
    change Keyed (Machine.pairs values)
    rw [hfields]
    apply keyed_fields
    rw [fst_fields shows]
    exact distinct.sublist (hl.map Prod.fst).sublist
  rw [← bind_assoc]
  apply Tracks.bind (N := N) (Q := Emptied .dict) (T := Took S .dict (Image.field S) [] attributes)
    (R := Began S .dict)
  · apply (tracks_empty he (.inr ⟨rfl, rfl⟩)).memoizeFresh
    rintro memo n absent w m w₁ m₁ - ⟨h, grew, placed, hh, hs⟩
    refine ⟨.object h.objects.size, m.stack.items, by rw [hs]; rfl, ?_⟩
    intro p p' trace sim hp
    exact ⟨w₁, sim.memoize absent trivial hp trace, h, grew, placed, hh, hs⟩
  · exact fun _ h => h
  · intro e' he' _
    apply (tracks_saveItems (k := .dict) he' (Image.lasting_field S)
      (fun _ _ _ _ => Image.length_field) (fun a ha e he => writes_field he (hx a ha))
      admits).mono (fun _ h => h)
    · exact fun _ _ h => h.opened
    · exact fun _ _ _ _ _ h => h
  · rintro w m w' m' - ⟨h, grew, placed, hh, hs⟩
    have top : m'.stack.items = .object h.objects.size :: m.stack.items := by
      rw [hs]
      rfl
    refine ⟨⟨_, _, top, by rw [hh]; exact Heap.get?_allocate_self ..⟩, ?_⟩
    intro w'' m'' took
    obtain ⟨fills, hs', held, ho, hheld⟩ := took _ _ top
    obtain ⟨fields, hfields, shows⟩ := Image.fields_of_all hheld
    rw [hh] at fills
    refine ⟨grew_of_allocate grew (.refl _) fills fun _ _ h => .inl h, [.object h.objects.size],
      ⟨_, fields, rfl, ?_, shows⟩, by rw [hs', hs]; rfl⟩
    rw [ho, Kind.make, hfields]

/-- An ordered mapping without attributes is on top. -/
def Unattributed (_ : World) (m : Machine) : Prop :=
  ∃ o below entries, m.stack.items = .object o :: below ∧
    m.heap.get? o = some (.ordered entries {})

/-- The ordered mapping on top has got its attributes. -/
def Attributed (S : Scene) (attributes : List (Text × Nat)) (w : World) (m : Machine) (w' : World)
    (m' : Machine) : Prop :=
  ∀ o below entries, m.stack.items = .object o :: below →
    m.heap.get? o = some (.ordered entries {}) →
    S.Fills o w m.heap w' m'.heap ∧ m'.stack = m.stack ∧
    ∃ fields, m'.heap.get? o = some (.ordered entries fields) ∧
      ShowsAttributes S.graph S.uses w' attributes fields.entries

theorem tracks_attributes {config : Config} (he : Orderly True e)
    (distinct : (attributes.map Prod.fst).Nodup)
    (names : ∀ a ∈ attributes, isAttributeName a.1 = true)
    (hx : ∀ a ∈ attributes, ∀ e, Orderly True e → Writes S N e (x a.2) (.showing S a.2)) :
    Tracks S N e (emit .emptyDict >>= fun _ => memoizeFresh >>= fun _ =>
      saveItems config .setItem .setItems (attributes.map fun a =>
        fresh >>= fun o => saveText (Identity.ofText a.1 o) a.1 >>= fun _ => x a.2) >>= fun _ =>
      emit .build) Unattributed (Attributed S attributes) := by
  have pushed := Tracks.mono (Q := Unattributed) (writes_state config he distinct hx)
    (fun _ h => h) (fun _ _ _ => trivial) (fun _ _ _ _ _ h => h)
  have built := pushed.emit (i := .build) (T := Attributed S attributes) ⟨rfl, rfl⟩ trivial nofun
    nofun ?_
  · simpa only [bind_assoc] using built
  rintro e' w m w₁ m₁ p next ⟨o, below, entries, hs, ho⟩
    ⟨grew, _, ⟨state, fields, rfl, hstate, shows⟩, hs₁⟩ sim hp -
  have hlt := Heap.get?_lt_size ho
  have same := fst_fields shows
  have stacked : m₁.stack.items = .object state :: .object o :: below := by
    rw [hs₁]
    simp [Stack.above, hs]
  have there := (grew.kept o hlt not_false).trans ho
  have settable : ∀ a ∈ fields, isAttributeName a.1 = true := by
    have all : ∀ name ∈ attributes.map Prod.fst, isAttributeName name = true := by
      simpa only [List.forall_mem_map] using names
    rw [← same] at all
    exact fun a ha => all a.1 (List.mem_map_of_mem ha)
  have apart : ((({} : Table Text Value).entries ++ fields).map Prod.fst).Nodup := by
    rw [← same] at distinct
    exact distinct
  apply Machine.ensures_build stacked there hstate settable apart
  intro trace
  refine ⟨w₁, sim.at hp.le rfl (le_of_eq (Heap.size_set ..).symm) rfl, ?_⟩
  intro o' below' entries' hs' ho'
  cases hs.symm.trans hs'
  cases ho.symm.trans ho'
  refine ⟨fills_of_grew grew hlt _, ?_, _, Heap.get?_set_self (Nat.lt_of_lt_of_le hlt grew.size) _,
    shows⟩
  rw [hs₁, ← hs]
  rfl

end Attributes

end Checkpoint.Pickle
