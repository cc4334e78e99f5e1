import Checkpoint.Proofs.Pickle.Assembly
import Checkpoint.Proofs.Pickle.Heap

/-! How a container is filled again.  Its items come in batches; each batch takes what is on the stack
into the object below it, and nothing else that was there changes. -/

namespace Checkpoint.Pickle

open Archive Effect Encoder

section Batches

variable {S : Scene} {N : Nat → Prop} {e : Encoder} {α : Type} {k : Kind} {x : α → Encoding Unit}
  {K : α → Image} {done batch items : List α} {w w' w'' : World} {m m' m'' : Machine}

theorem Image.dvd_length_all (width : ∀ item w h values, K item w h values →
    values.length = k.width) {h : Heap} {values : List Value} (hv : Image.all K items w h values) :
    k.width ∣ values.length := by
  induction items generalizing values with
  | nil =>
    obtain rfl := hv
    exact Nat.dvd_zero _
  | cons item items ih =>
    obtain ⟨a, b, rfl, ha, hb⟩ := hv
    rw [List.length_append, width item w h a ha]
    exact Nat.dvd_add (Nat.dvd_refl _) (ih hb)

/-- A container is on top that has taken items. -/
def Opened (k : Kind) (K : α → Image) (done : List α) (w : World) (m : Machine) : Prop :=
  ∃ o below held, m.stack.items = .object o :: below ∧ m.heap.get? o = some (k.make held) ∧
    Image.all K done w m.heap held

/-- The container on top has taken more items. -/
def Took (S : Scene) (k : Kind) (K : α → Image) (done items : List α) (w : World) (m : Machine)
    (w' : World) (m' : Machine) : Prop :=
  ∀ o below, m.stack.items = .object o :: below →
    S.Fills o w m.heap w' m'.heap ∧ m'.stack = m.stack ∧
    ∃ held, m'.heap.get? o = some (k.make held) ∧ Image.all K (done ++ items) w' m'.heap held

theorem Opened.took (h : Opened k K done w m) (t : Took S k K done batch w m w' m') :
    Opened k K (done ++ batch) w' m' := by
  obtain ⟨o, below, held, hs, _, _⟩ := h
  obtain ⟨_, hs', held', ho', hheld'⟩ := t o below hs
  exact ⟨o, below, held', by rw [hs', hs], ho', hheld'⟩

theorem Took.trans (h : Opened k K done w m) (t : Took S k K done batch w m w' m')
    (t' : Took S k K (done ++ batch) items w' m' w'' m'') :
    Took S k K done (batch ++ items) w m w'' m'' := by
  intro o below hs
  obtain ⟨o₁, below₁, held, hs₁, ho₁, _⟩ := h
  cases hs.symm.trans hs₁
  obtain ⟨fills, hs', _⟩ := t o below hs
  obtain ⟨fills', hs'', held'', ho'', hheld''⟩ := t' o below (by rw [hs', hs])
  refine ⟨fills.trans fills' ?_, hs''.trans hs', held'', ho'', ?_⟩
  · rintro _ rfl
    exact Heap.get?_lt_size ho₁
  · rwa [← List.append_assoc]

/-- An object that was there is changed after others have been written. -/
theorem fills_of_grew {h h' : Heap} {o : Nat} (grew : S.Grew w h w' h') (ho : o < h.objects.size)
    (object : Object) : S.Fills o w h w' (h'.set o object) := by
  refine ⟨grew.world, ?_, ?_, ?_⟩
  · rw [Heap.size_set]
    exact grew.size
  · intro o' ho' hne
    exact (Heap.get?_set_of_ne (Ne.symm hne) _).trans (grew.kept o' ho' not_false)
  · intro id o' hp
    obtain hp | ⟨ho', hf⟩ := grew.filled id o' hp
    · exact .inl hp
    · have hne : o ≠ o' := by
        rintro rfl
        exact absurd ho (Nat.not_lt.2 ho')
      exact .inr ⟨ho', hf.mono (.refl _) (Heap.get?_set_of_ne hne _)⟩

theorem took_of_grew {o : Nat} {below : List Value} {held added : List Value}
    (hK : ∀ item, (K item).Lasting) (hs : m.stack.items = .object o :: below)
    (ho : m.heap.get? o = some (k.make held)) (hheld : Image.all K done w m.heap held)
    (grew : S.Grew w m.heap w' m'.heap) (hadded : Image.all K batch w' m'.heap added)
    (trace : List Snapshot) :
    Took S k K done batch w m w'
      { m'.withContainer k o (held ++ added) below m.stack.suspended with trace } := by
  intro o₁ below₁ hs₁
  cases hs.symm.trans hs₁
  have hlt := Heap.get?_lt_size ho
  -- The values held before are images still, since images last while objects are written.
  have hlt' := Nat.lt_of_lt_of_le hlt grew.size
  have lasting {l : List α} : (Image.all K l).Lasting := Image.lasting_all fun item _ => hK item
  refine ⟨fills_of_grew grew hlt _, ?_, held ++ added, ?_, ?_⟩
  · change { items := .object o :: below, suspended := m.stack.suspended } = m.stack
    rw [← hs]
  · exact Heap.get?_set_self hlt' _
  · exact Image.all_append.2 ⟨held, added, rfl, lasting _ _ _ _ _ hheld grew.world,
      lasting _ _ _ _ _ hadded (.refl _)⟩

theorem tracks_single {item : α} (he : Orderly True e) (hK : ∀ item, (K item).Lasting)
    (width : ∀ item w h values, K item w h values → values.length = k.width)
    (hx : ∀ e, Orderly True e → Writes S N e (x item) (K item))
    (admits : ∀ w h values, Image.all K (done ++ [item]) w h values → k.Admits values) :
    Tracks S N e (x item >>= fun _ => emit k.single) (Opened k K done) (Took S k K done [item]) := by
  have pushed : Tracks S N e (x item) (Opened k K done) (Pushed S (K item)) :=
    Tracks.mono (hx e he) (fun _ h => h) (fun _ _ _ => trivial) fun _ _ _ _ _ h => h
  apply pushed.emit
  · cases k <;> exact ⟨rfl, rfl⟩
  · cases k <;> trivial
  · cases k <;> nofun
  · cases k <;> nofun
  rintro e' w m w₁ m₁ p next ⟨o, below, held, hs, ho, hheld⟩ ⟨grew, added, hadded, hs₁⟩ sim hp -
  have one : Image.all K [item] w₁ m₁.heap added := ⟨added, [], by simp, hadded, rfl⟩
  have together : Image.all K (done ++ [item]) w₁ m₁.heap (held ++ added) :=
    Image.all_append.2 ⟨held, added, rfl,
      Image.lasting_all (fun item _ => hK item) _ _ _ _ _ hheld grew.world, one⟩
  have stacked : m₁.stack.items = added.reverse ++ .object o :: below := by
    rw [hs₁]
    simp [Stack.above, hs]
  have there := (grew.kept o (Heap.get?_lt_size ho) not_false).trans ho
  apply Machine.ensures_single (Image.dvd_length_all width hheld) (width item _ _ _ hadded) stacked
    there (admits _ _ _ together)
  intro trace
  refine ⟨w₁, sim.at hp.le rfl (le_of_eq (Heap.size_set ..).symm) rfl, ?_⟩
  rw [hs₁]
  exact took_of_grew hK hs ho hheld grew one trace

theorem tracks_several (he : Orderly True e) (hK : ∀ item, (K item).Lasting)
    (width : ∀ item w h values, K item w h values → values.length = k.width)
    (hx : ∀ item ∈ batch, ∀ e, Orderly True e → Writes S N e (x item) (K item))
    (admits : ∀ w h values, Image.all K (done ++ batch) w h values → k.Admits values) :
    Tracks S N e ((emit .mark >>= fun _ => batch.forM x) >>= fun _ => emit k.several)
      (Opened k K done) (Took S k K done batch) := by
  have pushed : Tracks S N e (emit .mark >>= fun _ => batch.forM x) (Opened k K done)
      (PushedOn S Stack.marked (.all K batch)) :=
    (writes_marked he (fun item _ => (hK item).stable) hx).mono (fun _ h => h) (fun _ _ _ => trivial)
      fun _ _ _ _ _ h => h
  apply pushed.emit
  · cases k <;> exact ⟨rfl, rfl⟩
  · cases k <;> trivial
  · cases k <;> nofun
  · cases k <;> nofun
  rintro e' w m w₁ m₁ p next ⟨o, below, held, hs, ho, hheld⟩ ⟨grew, added, hadded, hs₁⟩ sim hp -
  have together : Image.all K (done ++ batch) w₁ m₁.heap (held ++ added) :=
    Image.all_append.2 ⟨held, added, rfl,
      Image.lasting_all (fun item _ => hK item) _ _ _ _ _ hheld grew.world, hadded⟩
  have stacked : m₁.stack =
      { items := added.reverse, suspended := (.object o :: below) :: m.stack.suspended } := by
    rw [hs₁]
    simp [Stack.above, Stack.marked, hs]
  have there := (grew.kept o (Heap.get?_lt_size ho) not_false).trans ho
  apply Machine.ensures_several (Image.dvd_length_all width hheld)
    (Image.dvd_length_all width hadded) stacked there (admits _ _ _ together)
  intro trace
  exact ⟨w₁, sim.at hp.le rfl (le_of_eq (Heap.size_set ..).symm) rfl,
    took_of_grew hK hs ho hheld grew hadded trace⟩

theorem tracks_saveBatch (he : Orderly True e) (hK : ∀ item, (K item).Lasting)
    (width : ∀ item w h values, K item w h values → values.length = k.width)
    (hx : ∀ item ∈ batch, ∀ e, Orderly True e → Writes S N e (x item) (K item))
    (admits : ∀ w h values, Image.all K (done ++ batch) w h values → k.Admits values) :
    Tracks S N e (saveBatch k.single k.several (batch.map x)) (Opened k K done)
      (Took S k K done batch) := by
  match batch, hx, admits with
  | [item], hx, admits => exact tracks_single he hK width (hx item List.mem_cons_self) admits
  | [], hx, admits =>
    have h := tracks_several he hK width hx admits
    rwa [bind_assoc] at h
  | a :: b :: rest, hx, admits =>
    have h := tracks_several he hK width hx admits
    have forM : ((a :: b :: rest).map x).forM id = (a :: b :: rest).forM x := by
      simp [List.forM_eq_forM]
    change Tracks S N e (emit .mark >>= fun _ => ((a :: b :: rest).map x).forM id >>= fun _ =>
      emit k.several) _ _
    rwa [forM, ← bind_assoc]

theorem tracks_batches (bs : List (List α)) (he : Orderly True e) (hK : ∀ item, (K item).Lasting)
    (width : ∀ item w h values, K item w h values → values.length = k.width)
    (hx : ∀ item ∈ bs.flatten, ∀ e, Orderly True e → Writes S N e (x item) (K item))
    (admits : ∀ l, l <+: done ++ bs.flatten → ∀ w h values, Image.all K l w h values →
      k.Admits values) :
    Tracks S N e ((bs.map (List.map x)).forM (saveBatch k.single k.several)) (Opened k K done)
      (fun w m w' m' => Opened k K done w m → Took S k K done bs.flatten w m w' m') := by
  induction bs generalizing e done with
  | nil =>
    apply (tracks_pure he).mono (fun _ h => h) (fun _ _ h => h)
    rintro w m _ _ - ⟨rfl, rfl⟩ ⟨o, below, held, hs, ho, hheld⟩ o' below' hs'
    cases hs.symm.trans hs'
    exact ⟨.refl _ _, rfl, held, ho, by simpa using hheld⟩
  | cons batch bs ih =>
    simp only [List.flatten_cons, List.mem_append] at hx admits ⊢
    -- What a container has to admit is everything up to a batch, not the batch alone: keys are to be
    -- apart from those that were entered before.
    rw [← List.append_assoc] at admits
    apply (tracks_saveBatch he hK width (fun item hi => hx item (.inl hi))
      (admits _ (List.prefix_append _ _))).bind (fun _ h => h)
    · intro e' he' _
      exact ih he' (fun item hi => hx item (.inr hi)) admits
    · intro w m w' m' opened took
      have opened' := opened.took took
      exact ⟨opened', fun w'' m'' took' _ => took.trans opened (took' opened')⟩

theorem tracks_saveItems {config : Config} (he : Orderly True e) (hK : ∀ item, (K item).Lasting)
    (width : ∀ item w h values, K item w h values → values.length = k.width)
    (hx : ∀ item ∈ items, ∀ e, Orderly True e → Writes S N e (x item) (K item))
    (admits : ∀ l, l <+: items → ∀ w h values, Image.all K l w h values → k.Admits values) :
    Tracks S N e (saveItems config k.single k.several (items.map x)) (Opened k K [])
      (Took S k K [] items) := by
  have flat := flatten_batches config.batchSize items
  have tracks : Tracks S N e ((batches config.batchSize (items.map x)).forM
      (saveBatch k.single k.several)) (Opened k K []) (Took S k K [] items) := by
    rw [batches_map]
    have tracked := tracks_batches (batches config.batchSize items) (x := x) he hK width
      (by rwa [flat]) (by rwa [List.nil_append, flat])
    apply tracked.mono (fun _ h => h) (fun _ _ h => h)
    intro w m w' m' opened took
    rw [flat] at took
    exact took opened
  unfold saveItems
  split
  · constructor
    simp only [ensures_bind, ensures_throw]
  · exact tracks

end Batches

end Checkpoint.Pickle
