import Checkpoint.Proofs.Pickle.Tracking

/-! How a machine follows the parts of a writing: what is pushed, stored and fetched. -/

namespace Checkpoint.Pickle

open Archive Effect

namespace World

def withOrigin (w : World) (birth id : Nat) : World :=
  { w with origin := fun b => if b = birth then some id else w.origin b }

def withPlace (w : World) (id o : Nat) : World :=
  { w with place := fun i => if i = id then some o else w.place i }

def withRegistered (w : World) (n : Nat) : World :=
  { w with registered := fun k => k = n ∨ w.registered k }

def withClock (w : World) (clock : Nat) : World := { w with clock }

variable {w : World}

theorem extends_withOrigin {birth : Nat} (h : w.origin birth = none) (id : Nat) :
    w.Extends (w.withOrigin birth id) := by
  refine ⟨fun _ _ h => h, ?_, fun _ h => h, Nat.le_refl _⟩
  intro b i hb
  change (if b = birth then some id else w.origin b) = some i
  rw [if_neg, hb]
  rintro rfl
  rw [h] at hb
  cases hb

theorem extends_withPlace {id : Nat} (h : w.place id = none) (o : Nat) :
    w.Extends (w.withPlace id o) := by
  refine ⟨?_, fun _ _ h => h, fun _ h => h, Nat.le_refl _⟩
  intro i p hp
  change (if i = id then some o else w.place i) = some p
  rw [if_neg, hp]
  rintro rfl
  rw [h] at hp
  cases hp

theorem extends_withRegistered (n : Nat) : w.Extends (w.withRegistered n) :=
  ⟨fun _ _ h => h, fun _ _ h => h, fun _ h => .inr h, Nat.le_refl _⟩

theorem extends_withClock {clock : Nat} (h : w.clock ≤ clock) : w.Extends (w.withClock clock) :=
  ⟨fun _ _ h => h, fun _ _ h => h, fun _ h => h, h⟩

end World

/-- The stack with values on top, the last one uppermost. -/
def Stack.above (s : Stack) (values : List Value) : Stack :=
  { s with items := values.reverse ++ s.items }

theorem Stack.above_append (s : Stack) (a b : List Value) : s.above (a ++ b) = (s.above a).above b := by
  simp [Stack.above]

/-- The stack with a mark on top. -/
def Stack.marked (s : Stack) : Stack :=
  { items := [], suspended := s.items :: s.suspended }

/-- What values on the stack are an image of. -/
abbrev Image := World → Heap → List Value → Prop

namespace Image

variable {S : Scene} {I J : Image}

/-- Whether an image stays one while objects are written. -/
def Stable (S : Scene) (I : Image) : Prop :=
  ∀ w h w' h' values, I w h values → S.Grew w h w' h' → I w' h' values

/-- Whether an image stays one whatever objects become. -/
def Lasting (I : Image) : Prop :=
  ∀ w h w' h' values, I w h values → w.Extends w' → I w' h' values

theorem Lasting.stable (h : I.Lasting) : I.Stable S :=
  fun w a w' b values hv hg => h w a w' b values hv hg.world

/-- One image after another. -/
def andThen (I J : Image) : Image :=
  fun w h values => ∃ a b, values = a ++ b ∧ I w h a ∧ J w h b

theorem Lasting.andThen (hI : I.Lasting) (hJ : J.Lasting) : (I.andThen J).Lasting := by
  rintro w h w' h' _ ⟨a, b, rfl, ha, hb⟩ hw
  exact ⟨a, b, rfl, hI w h w' h' a ha hw, hJ w h w' h' b hb hw⟩

/-- The images of items in turn. -/
def all {α : Type} (I : α → Image) : List α → Image
  | [] => fun _ _ values => values = []
  | item :: items => (I item).andThen (all I items)

variable {α : Type} {K : α → Image}

theorem lasting_all {items : List α} (h : ∀ item ∈ items, (K item).Lasting) :
    (all K items).Lasting := by
  induction items with
  | nil => exact fun _ _ _ _ _ hv _ => hv
  | cons item items ih =>
    exact (h item List.mem_cons_self).andThen (ih fun i hi => h i (List.mem_cons_of_mem _ hi))

theorem all_append {a b : List α} {w : World} {h : Heap} {values : List Value} :
    all K (a ++ b) w h values ↔ (all K a).andThen (all K b) w h values := by
  induction a generalizing values with
  | nil => simp [all, andThen]
  | cons item a ih =>
    simp only [List.cons_append, all]
    constructor
    · rintro ⟨x, y, rfl, hx, hy⟩
      obtain ⟨u, v, rfl, hu, hv⟩ := ih.1 hy
      exact ⟨x ++ u, v, by simp, ⟨x, u, rfl, hx, hu⟩, hv⟩
    · rintro ⟨_, v, rfl, ⟨x, u, rfl, hx, hu⟩, hv⟩
      exact ⟨x, u ++ v, by simp, hx, ih.2 ⟨u, v, rfl, hu, hv⟩⟩

/-- The image that is one value. -/
def exactly (v : Value) : Image := fun _ _ values => values = [v]

/-- The image of what the memo tells apart. -/
def standing (S : Scene) (o : Identity) : Image :=
  fun w _ values => ∃ v, values = [v] ∧ S.Stands w o v

def showing (S : Scene) (id : Nat) : Image :=
  fun w _ values => ∃ v, values = [v] ∧ S.Shows w id v

theorem lasting_exactly (v : Value) : (exactly v).Lasting :=
  fun _ _ _ _ _ hv _ => hv

theorem lasting_showing (S : Scene) (id : Nat) : (showing S id).Lasting := by
  rintro w h w' h' _ ⟨v, rfl, hv⟩ hw
  exact ⟨v, rfl, hv.mono hw⟩

end Image

/-- Values that are an image have been pushed onto what a stack has become. -/
structure PushedOn (S : Scene) (f : Stack → Stack) (I : Image) (w : World) (m : Machine) (w' : World)
    (m' : Machine) : Prop where
  grew : S.Grew w m.heap w' m'.heap
  stack : ∃ values, I w' m'.heap values ∧ m'.stack = (f m.stack).above values

/-- Values that are an image have been pushed. -/
abbrev Pushed (S : Scene) (I : Image) : World → Machine → World → Machine → Prop :=
  PushedOn S id I

/-- An action whose machine pushes an image. -/
abbrev Writes (S : Scene) (N : Nat → Prop) (e : Encoder) (x : Encoder.Encoding Unit) (I : Image) :
    Prop :=
  Tracks S N e x (fun _ _ => True) (Pushed S I)

section Sim

variable {S : Scene} {memo : Table Identity Nat} {w w' : World} {p p' : Nat} {m m' : Machine}
  {o : Identity} {v : Value}

theorem Sim.at (h : Sim S memo w p m) (hp : p ≤ p') (hm : m'.memo = m.memo)
    (hh : m.heap.objects.size ≤ m'.heap.objects.size) (ha : m'.arena = m.arena) :
    Sim S memo w p' m' where
  numbers := h.numbers
  stands := by rw [hm]; exact h.stands
  clock := h.clock.trans hp
  births birth id hb := (h.births birth id hb).trans hp
  stored := h.stored
  once := h.once
  placed id o ho := (h.placed id o ho).imp_left fun hlt => Nat.lt_of_lt_of_le hlt hh
  apart := h.apart
  reader := by rw [ha]; exact h.reader
  unread := by rw [ha]; exact h.unread
  blobs := by rw [ha]; exact h.blobs
  registered := by rw [ha]; exact h.registered

theorem Sim.origin_eq_none (h : Sim S memo w p m) {birth : Nat} (hb : p < birth) :
    w.origin birth = none := by
  cases ho : w.origin birth with
  | none => rfl
  | some id => exact absurd (h.births birth id ho) (not_le.2 hb)

theorem Sim.place_eq_none (h : Sim S memo w p m) {id : Nat}
    (absent : memo.contains (.node id) = false) : w.place id = none := by
  cases ho : w.place id with
  | none => rfl
  | some o =>
    have := (h.placed id o ho).2
    rw [absent] at this
    cases this

theorem Sim.withClock (h : Sim S memo w p m) (hp : p ≤ p') : Sim S memo (w.withClock p') p' m where
  numbers := h.numbers
  stands o n hn := by
    obtain ⟨v, hv, hs⟩ := h.stands o n hn
    exact ⟨v, hv, hs.mono (World.extends_withClock (h.clock.trans hp))⟩
  clock := le_rfl
  births birth id hb := (h.births birth id hb).trans hp
  stored := h.stored
  once := h.once
  placed := h.placed
  apart := h.apart
  reader := h.reader
  unread := h.unread
  blobs := h.blobs
  registered := h.registered

/-- A new birth of what is not stored. -/
theorem Sim.withOrigin (h : Sim S memo w p m) {birth : Nat} (hb : p < birth) {id : Nat}
    (hg : (S.graph.node id).isFilledTuple = false) :
    Sim S memo (w.withOrigin birth id) birth m where
  numbers := h.numbers
  stands o n hn := by
    obtain ⟨v, hv, hs⟩ := h.stands o n hn
    exact ⟨v, hv, hs.mono (World.extends_withOrigin (h.origin_eq_none hb) id)⟩
  clock := h.clock.trans hb.le
  births b i hi := by
    change (if b = birth then some id else w.origin b) = some i at hi
    split at hi
    next hb => exact hb.le
    next => exact (h.births b i hi).trans hb.le
  stored b i hi ht := by
    change (if b = birth then some id else w.origin b) = some i at hi
    split at hi
    · cases hi
      rw [hg] at ht
      cases ht
    · exact h.stored b i hi ht
  once b b' i hi hi' ht := by
    change (if b = birth then some id else w.origin b) = some i at hi
    change (if b' = birth then some id else w.origin b') = some i at hi'
    have other : id ≠ i := by
      rintro rfl
      rw [hg] at ht
      cases ht
    split at hi
    · exact absurd (Option.some.inj hi) other
    · split at hi'
      · exact absurd (Option.some.inj hi') other
      · exact h.once b b' i hi hi' ht
  placed := h.placed
  apart := h.apart
  reader := h.reader
  unread := h.unread
  blobs := h.blobs
  registered := h.registered

theorem Sim.memoized (h : Sim S memo w p m) (absent : memo.contains o = false) (hw : w.Extends w')
    (ho : S.Stands w' o v) {o' : Identity} {n : Nat}
    (hn : (memo.insert o memo.size).get? o' = some n) :
    n < (memo.insert o memo.size).size ∧
      ∃ v', (m.memo.insert memo.size v).get? n = some v' ∧ S.Stands w' o' v' := by
  rw [Table.size_insert, absent]
  rw [Table.get?_insert] at hn
  split at hn
  · next heq =>
    obtain rfl := eq_of_beq heq
    cases hn
    exact ⟨Nat.lt_succ_self _, v, Table.get?_insert_self .., ho⟩
  -- Older entries have smaller numbers, so the new one does not hide them.
  · have hlt := h.numbers o' n hn
    obtain ⟨v', hv', hs⟩ := h.stands o' n hn
    refine ⟨Nat.lt_succ_of_lt hlt, v', ?_, hs.mono hw⟩
    rw [Table.get?_insert_of_ne (Nat.ne_of_gt hlt)]
    exact hv'

theorem Sim.memoize (h : Sim S memo w p m) (absent : memo.contains o = false)
    (hv : S.Stands w o v) (hp : p ≤ p') (trace : List Snapshot) :
    Sim S (memo.insert o memo.size) w p'
      { m with memo := m.memo.insert memo.size v, trace } where
  numbers _ _ hn := (h.memoized absent (.refl w) hv hn).1
  stands _ _ hn := (h.memoized absent (.refl w) hv hn).2
  clock := h.clock.trans hp
  births birth id hb := (h.births birth id hb).trans hp
  stored birth id hb ht := by
    rw [Table.contains_insert, h.stored birth id hb ht, Bool.or_true]
  once := h.once
  placed id o' ho := by
    obtain ⟨hlt, hc⟩ := h.placed id o' ho
    refine ⟨hlt, ?_⟩
    rw [Table.contains_insert, hc, Bool.or_true]
  apart := h.apart
  reader := h.reader
  unread := h.unread
  blobs := h.blobs
  registered := h.registered

theorem Sim.place {id place : Nat} (h : Sim S memo w p m) (absent : memo.contains (.node id) = false)
    (hg : (S.graph.node id).isContainer = true) (hs : place < m.heap.objects.size)
    (unplaced : ∀ id', w.place id' ≠ some place) (hp : p ≤ p') (trace : List Snapshot) :
    Sim S (memo.insert (.node id) memo.size) (w.withPlace id place) p'
      { m with memo := m.memo.insert memo.size (.object place), trace } := by
  have hw := World.extends_withPlace (h.place_eq_none absent) place
  have here : (w.withPlace id place).place id = some place := if_pos rfl
  have hv : S.Stands (w.withPlace id place) (.node id) (.object place) := .object hg here
  refine ⟨fun _ _ hn => (h.memoized absent hw hv hn).1, fun _ _ hn => (h.memoized absent hw hv hn).2,
    h.clock.trans hp, fun birth id hb => (h.births birth id hb).trans hp, ?_, h.once, ?_, ?_, h.reader,
    h.unread, h.blobs, h.registered⟩
  · intro birth id' hb ht
    rw [Table.contains_insert, h.stored birth id' hb ht, Bool.or_true]
  · intro id' o' ho
    change (if id' = id then some place else w.place id') = some o' at ho
    rw [Table.contains_insert]
    split at ho
    · next heq =>
      subst heq
      cases ho
      exact ⟨hs, by simp⟩
    · obtain ⟨hlt, hc⟩ := h.placed id' o' ho
      exact ⟨hlt, by rw [hc, Bool.or_true]⟩
  · intro a b o' ha hb
    change (if a = id then some place else w.place a) = some o' at ha
    change (if b = id then some place else w.place b) = some o' at hb
    split at ha <;> split at hb
    next hai hbi => rw [hai, hbi]
    next =>
      cases ha
      exact absurd hb (unplaced b)
    next =>
      cases hb
      exact absurd ha (unplaced a)
    next => exact h.apart a b o' ha hb

theorem Sim.bear {id birth : Nat} {values : List Value} (h : Sim S memo w p m)
    (absent : memo.contains (.node id) = false) (unborn : w.origin birth = none)
    (hb : birth ≤ w.clock) (hv : S.Shows (w.withOrigin birth id) id (.tuple values birth))
    (hp : p ≤ p') (trace : List Snapshot) :
    Sim S (memo.insert (.node id) memo.size) (w.withOrigin birth id) p'
      { m with memo := m.memo.insert memo.size (.tuple values birth), trace } := by
  have hw := World.extends_withOrigin unborn id
  have early : birth ≤ p' := hb.trans (h.clock.trans hp)
  have free {b : Nat} (hi : w.origin b = some id) :
      ¬ (S.graph.node id).isFilledTuple = true := by
    intro ht
    rw [h.stored b id hi ht] at absent
    cases absent
  refine ⟨fun _ _ hn => (h.memoized absent hw hv hn).1, fun _ _ hn => (h.memoized absent hw hv hn).2,
    h.clock.trans hp, ?_, ?_, ?_, ?_, h.apart, h.reader, h.unread, h.blobs, h.registered⟩
  · intro b i hi
    change (if b = birth then some id else w.origin b) = some i at hi
    split at hi
    next hb => exact hb ▸ early
    next => exact (h.births b i hi).trans hp
  · intro b i hi ht
    change (if b = birth then some id else w.origin b) = some i at hi
    rw [Table.contains_insert]
    split at hi
    · cases hi
      simp
    · rw [h.stored b i hi ht, Bool.or_true]
  · intro b b' i hi hi' ht
    change (if b = birth then some id else w.origin b) = some i at hi
    change (if b' = birth then some id else w.origin b') = some i at hi'
    split at hi <;> split at hi'
    next hb hb' => rw [hb, hb']
    next =>
      cases hi
      exact absurd ht (free hi')
    next =>
      cases hi'
      exact absurd ht (free hi)
    next => exact h.once b b' i hi hi' ht
  · intro id' o' ho
    obtain ⟨hlt, hc⟩ := h.placed id' o' ho
    exact ⟨hlt, by rw [Table.contains_insert, hc, Bool.or_true]⟩

end Sim

end Checkpoint.Pickle
