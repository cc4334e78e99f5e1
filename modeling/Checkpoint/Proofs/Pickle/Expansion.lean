import Checkpoint.Proofs.Pickle.Registration

/-! What a stream says.  A text or a class that is fetched has been made before; said again in the place
of each fetch, it makes what is written of a tensor the same whatever has been written before it. -/

namespace Checkpoint.Pickle

open Effect

/-- Whether the instruction makes a text or a class. -/
def Instruction.isAtom : Instruction → Bool
  | .unicode _ | .global .. => true
  | _ => false

/-- Instructions as they have been read so far. -/
structure Expansion where
  /-- What they say, with the texts and classes that are fetched said again. -/
  said : List Instruction := []
  /-- What had been said last when a number was stored under. -/
  slot : Nat → Option Instruction := fun _ => none

namespace Expansion

/-- Reads on: a store says nothing. -/
def next (x : Expansion) (i : Instruction) : Expansion :=
  match i.storedAt?, i.fetchedAt? with
  | some n, _ => { x with slot := fun k => if k = n then x.said.getLast? else x.slot k }
  | none, some n => { x with said := x.said ++ [((x.slot n).filter Instruction.isAtom).getD i] }
  | none, none => { x with said := x.said ++ [i] }

/-- Reads what has been written. -/
def ofWritten (written : List Written) : Expansion :=
  (written.map Written.instruction).foldl next {}

variable {x : Expansion} {i j : Instruction} {n : Nat}

theorem ofWritten_concat (written : List Written) (w : Written) :
    ofWritten (written ++ [w]) = (ofWritten written).next w.instruction := by
  simp only [ofWritten, List.map_append, List.map_singleton, List.foldl_append, List.foldl_cons,
    List.foldl_nil]

theorem slot_next (h : i.storedAt? = none) : (x.next i).slot = x.slot := by
  unfold next
  rw [h]
  cases i.fetchedAt? <;> rfl

theorem said_next_of_stored (h : i.storedAt? = some n) : (x.next i).said = x.said := by
  unfold next
  rw [h]

theorem slot_next_of_stored (h : i.storedAt? = some n) (k : Nat) :
    (x.next i).slot k = if k = n then x.said.getLast? else x.slot k := by
  unfold next
  rw [h]

theorem said_next (stored : i.storedAt? = none) (fetched : i.fetchedAt? = none) :
    (x.next i).said = x.said ++ [i] := by
  unfold next
  rw [stored, fetched]

theorem said_next_of_fetched (stored : i.storedAt? = none) (fetched : i.fetchedAt? = some n)
    (atom : j.isAtom = true) (slot : x.slot n = some j) : (x.next i).said = x.said ++ [j] := by
  unfold next
  rw [stored, fetched]
  simp only [slot, Option.filter_some, atom, if_true, Option.getD_some]

end Expansion

/-- What a stream says. -/
def saidBy (written : List Written) : List Instruction := (Expansion.ofWritten written).said

theorem Identity.content?_isAtom {o : Identity} {i : Instruction} (h : o.content? = some i) :
    i.isAtom = true ∧ i.storedAt? = none ∧ i.fetchedAt? = none := by
  cases o <;> cases h <;> exact ⟨rfl, rfl, rfl⟩

namespace Encoder

/-- What has been written says. -/
def said (e : Encoder) : List Instruction := saidBy e.history

/-- Objects that are told apart by their content can be said again where they are fetched. -/
def Filed (e : Encoder) : Prop :=
  ∀ o i n, o.content? = some i → e.memo.get? o = some n →
    n < e.memo.size ∧ (Expansion.ofWritten e.history).slot n = some i

theorem filed_start : Filed {} := nofun

variable {e : Encoder} {w : Written} {o : Identity} {i : Instruction}

theorem ofWritten_write {e' : Encoder} (h : e'.output = w :: e.output) :
    Expansion.ofWritten e'.history = (Expansion.ofWritten e.history).next w.instruction := by
  rw [← Expansion.ofWritten_concat, history, h, List.reverse_cons]
  rfl

theorem Filed.write (h : Filed e) (plain : w.instruction.storedAt? = none) :
    Filed { e with output := w :: e.output } := by
  intro o i n content stored
  rw [ofWritten_write rfl, Expansion.slot_next plain]
  exact h o i n content stored

/-- What has just been made was said last. -/
theorem getLast?_said {e : Encoder} (h : e.output.head?.map Written.instruction = some i)
    (plain : i.storedAt? = none ∧ i.fetchedAt? = none) : e.said.getLast? = some i := by
  cases out : e.output with
  | nil =>
    rw [out] at h
    cases h
  | cons w output =>
    rw [out] at h
    cases h
    have split : e.history = output.reverse ++ [w] := by
      simp only [history, out, List.reverse_cons]
    rw [said, saidBy, split, Expansion.ofWritten_concat, Expansion.said_next plain.1 plain.2,
      List.getLast?_concat]

/-- A store files what has just been made. -/
theorem Filed.store (h : Filed e) (made : e.Made o) (hi : i.storedAt? = some e.memo.size) :
    Filed { e with
      output := { instruction := i, object := some o } :: e.output
      memo := e.memo.insert o e.memo.size } := by
  intro o' j n content stored
  have slot := Expansion.slot_next_of_stored (x := Expansion.ofWritten e.history) hi
  rw [ofWritten_write rfl, slot]
  rw [Table.get?_insert] at stored
  split at stored
  · next same =>
    obtain rfl := eq_of_beq same
    cases stored
    obtain ⟨last, absent⟩ := made j content
    obtain ⟨-, plain⟩ := Identity.content?_isAtom content
    have new : (e.memo.insert o e.memo.size).size = e.memo.size + 1 := by
      rw [Table.size_insert, Table.contains_eq_isSome, absent]
      rfl
    exact ⟨new ▸ Nat.lt_succ_self _, (if_pos rfl).trans (getLast?_said last plain)⟩
  · obtain ⟨below, filed⟩ := h o' j n content stored
    have grown : e.memo.size ≤ (e.memo.insert o e.memo.size).size := by
      rw [Table.size_insert]
      split <;> omega
    exact ⟨Nat.lt_of_lt_of_le below grown, (if_neg (Nat.ne_of_lt below)).trans filed⟩

/-- What an action writes says certain words, wherever it starts. -/
def Says {α : Type} (words : List Instruction) (x : Encoding α) : Prop :=
  ∀ e, Filed e → x.Ensures e (fun _ e' => Filed e' ∧ e'.said = e.said ++ words) fun _ _ => True

section Says

variable {α β : Type} {words more : List Instruction} {x : Encoding α} {f : α → Encoding β}

theorem Says.bind (hx : Says words x) (hf : ∀ a, Says more (f a)) : Says (words ++ more) (x >>= f) := by
  intro e filed
  rw [ensures_bind]
  apply (hx e filed).post
  rintro a e₁ ⟨filed₁, said₁⟩
  apply (hf a e₁ filed₁).post
  rintro b e₂ ⟨filed₂, said₂⟩
  exact ⟨filed₂, by rw [said₂, said₁, List.append_assoc]⟩

theorem says_pure (a : α) : Says [] (pure a : Encoding α) :=
  fun _ filed => (ensures_pure a).2 ⟨filed, (List.append_nil _).symm⟩

theorem says_throw (error : Error) : Says words (throw error : Encoding α) :=
  fun _ _ => (ensures_throw error).2 trivial

theorem said_write {e' : Encoder} (h : e'.output = w :: e.output) (stored : w.instruction.storedAt? = none)
    (fetched : w.instruction.fetchedAt? = none) : e'.said = e.said ++ [w.instruction] := by
  rw [said, saidBy, ofWritten_write h, Expansion.said_next stored fetched]
  rfl

theorem said_store {e' : Encoder} (h : e'.output = w :: e.output) {n : Nat}
    (stored : w.instruction.storedAt? = some n) : e'.said = e.said := by
  rw [said, saidBy, ofWritten_write h, Expansion.said_next_of_stored stored]
  rfl

theorem says_emit (stored : i.storedAt? = none) (fetched : i.fetchedAt? = none) : Says [i] (emit i) :=
  fun _ filed => (ensures_modify _).2 ⟨filed.write stored, said_write (w := { instruction := i }) rfl stored fetched⟩

theorem says_memoize (filed : Filed e) (made : e.Made o) :
    (memoize o).Ensures e (fun _ e' => Filed e' ∧ e'.said = e.said) fun _ _ => True :=
  ensures_memoize (fun _ hi => ⟨filed.store made hi, said_store rfl hi⟩) fun _ _ => trivial

theorem says_fresh {f : Identity → Encoding α} (h : ∀ n, Says words (f (.temporary n))) :
    Says words (fresh >>= f) := by
  intro e filed
  unfold fresh
  simp only [ensures_bind, ensures_get, ensures_modify, ensures_pure]
  exact h _ _ filed

theorem says_memoizeFresh : Says [] memoizeFresh :=
  says_fresh fun n _ filed => (says_memoize (o := .temporary n) filed nofun).post
    fun _ _ ⟨filed', same⟩ => ⟨filed', same.trans (List.append_nil _).symm⟩

/-- What is told apart by its content is said, whether it is made or fetched. -/
theorem says_make {r : Except Error Instruction} (hr : ∀ j, r = .ok j → j = i) (content : o.content? = some i) :
    Says [i] (once o (emitChecked r >>= fun _ => memoize o)) := by
  obtain ⟨atom, stored, fetched⟩ := Identity.content?_isAtom content
  intro e filed
  unfold once
  rw [ensures_bind, ensures_get]
  split
  · next n hn =>
    refine ensures_check (fun _ _ => trivial) fun j hj => (ensures_modify _).2 ?_
    obtain ⟨hs, hf⟩ := getInstruction_eq_ok hj
    refine ⟨filed.write hs, ?_⟩
    rw [said, saidBy, ofWritten_write rfl, Expansion.said_next_of_fetched hs hf atom (filed o i n content hn).2]
    rfl
  · next absent =>
    unfold emitChecked
    rw [bind_assoc]
    refine ensures_check (fun _ _ => trivial) fun j hj => ?_
    obtain rfl := hr j hj
    rw [ensures_bind]
    refine (ensures_modify _).2 ?_
    have made : Made { e with output := { instruction := j } :: e.output } o := by
      intro k hk
      rw [content] at hk
      cases hk
      exact ⟨rfl, absent⟩
    apply (says_memoize (filed.write stored) made).post
    rintro _ e' ⟨filed', same⟩
    exact ⟨filed', same.trans (said_write (w := { instruction := j }) rfl stored fetched)⟩

theorem says_saveText {t : Text} (content : o.content? = some (.unicode t)) :
    Says [.unicode t] (saveText o t) := says_make (fun _ => textInstruction_eq_ok) content

theorem says_saveGlobal (module name : Text) : Says [.global module name] (saveGlobal module name) :=
  says_make (r := .ok (.global module name)) (fun _ h => (Except.ok.inj h).symm) rfl

/-- How a number is said: by nothing, if there is no instruction for it. -/
def number (n : Int) : List Instruction := (intInstruction n).toOption.toList

theorem says_saveInt (n : Int) : Says (number n) (saveInt n) := by
  unfold saveInt emitChecked number
  cases h : intInstruction n with
  | error _ => exact says_throw _
  | ok i =>
    obtain ⟨stored, fetched⟩ := plain_intInstruction h
    exact says_emit stored fetched

theorem says_orderedDict : Says
    [.global Constructor.orderedDict.module Constructor.orderedDict.name, .emptyTuple, .reduce]
    orderedDict :=
  (says_saveGlobal _ _).bind fun _ => (says_emit rfl rfl).bind fun _ => says_emit rfl rfl

theorem says_forM {items : List (Encoding Unit)} {parts : List (List Instruction)}
    (h : List.Forall₂ Says parts items) : Says parts.flatten (items.forM id) := by
  induction h with
  | nil => exact says_pure _
  | cons first _ ih => exact first.bind fun _ => ih

/-- How a tuple is said. -/
def tuple (parts : List (List Instruction)) : List Instruction :=
  if parts = [] then [.emptyTuple]
  else (if 3 < parts.length then [.mark] else []) ++ parts.flatten ++ [tupleInstruction parts.length]

theorem says_saveTuple {items : List (Encoding Unit)} {parts : List (List Instruction)}
    (h : List.Forall₂ Says parts items) : Says (tuple parts) (saveTuple fresh items) := by
  have length := h.length_eq
  have made := plain_tupleInstruction items.length
  have close : Says (parts.flatten ++ [tupleInstruction items.length]) (items.forM id >>= fun _ =>
      emit (tupleInstruction items.length) >>= fun _ => fresh >>= memoize) := by
    have rest : Says [tupleInstruction items.length] (emit (tupleInstruction items.length) >>= fun _ =>
        fresh >>= memoize) := (says_emit made.1 made.2).bind fun _ => says_memoizeFresh
    exact (says_forM h).bind fun _ => rest
  unfold saveTuple tuple
  cases h with
  | nil => exact says_emit rfl rfl
  | cons first others =>
    rw [if_neg (List.cons_ne_nil _ _), length]
    dsimp only
    split
    · exact (says_emit (i := .mark) rfl rfl).bind fun _ => close
    · exact close

end Says

end Encoder

end Checkpoint.Pickle
