import Checkpoint.Proofs.Pickle.Growth
import Checkpoint.Proofs.Pickle.Moves

/-! A machine stays within its limits and comes to an end.  Whatever an instruction does, it leaves
the stacks no deeper and the memo no larger than the configuration allows, and a run takes no more
opcodes than its stream has bytes. -/

namespace Checkpoint.Pickle.Machine

open Archive Effect

variable {config : Config} {c next : Cursor} {m m' : Machine}

/-- The stacks and the memo are no larger than they may be. -/
structure Within (config : Config) (m : Machine) : Prop where
  depth : m.stack.depth ≤ config.maxStackDepth
  memo : (m.memo.size : Int) ≤ max 0 config.maxMemoSize

theorem within_new (arena : Arena) : Within config { arena } where
  depth := Nat.zero_le _
  memo := le_max_left _ _

theorem Within.traced (h : m.Within config) (c : Cursor) : (m.traced c).Within config :=
  ⟨h.depth, h.memo⟩

theorem Within.of_grownBy (h : m.Within config) (g : GrownBy 0 m m') : m'.Within config where
  depth := g.depth.trans h.depth
  memo := (Int.ofNat_le.2 g.memo).trans h.memo

/-- From a machine within its limits an action leads to none beyond them, whether it succeeds or
fails. -/
def Confined (config : Config) (x : Running α) : Prop :=
  ∀ m, m.Within config → x.Ensures m (fun _ m' => m'.Within config) fun _ m' => m'.Within config

/-- Only what adds to the stacks or to the memo has a limit to keep. -/
theorem Grows.confined {x : Running α} (hx : Grows 0 x) : Confined config x :=
  fun m h => (hx m).mono (fun _ _ g => h.of_grownBy g) fun _ _ g => h.of_grownBy g

theorem composable_confined : Composable (Confined config) where
  pure a := (grows_pure a).confined
  refuse cause := (grows_refuse cause).confined
  bind hx hf m h := (ensures_bind _).2 ((hx m h).post fun a m' h' => hf a m' h')
  look _ h m hm := (ensures_bind _).2 (ensures_get.2 (h m m hm))

theorem confined_push (v : Value) : Confined config (push config v) := by
  intro m h
  rw [ensures_push]
  split
  · exact h
  · next free =>
    refine ⟨?_, h.memo⟩
    rw [Stack.depth_push]
    exact Nat.lt_of_not_le free

theorem confined_mark : Confined config (mark config) := by
  intro m h
  rw [ensures_mark]
  split
  · exact h
  · next free =>
    refine ⟨?_, h.memo⟩
    rw [Stack.depth_mark]
    exact Nat.lt_of_not_le free

theorem confined_pushObject (o : Object) : Confined config (pushObject config o) := by
  intro m h
  rw [ensures_pushObject]
  exact confined_push _ _ ⟨h.depth, h.memo⟩

/-- An entry that is replaced takes no room, and a new one is only made below the limit. -/
theorem confined_memoPut (c : Cursor) (index : Nat) : Confined config (memoPut config c index) := by
  intro m h
  rw [ensures_memoPut]
  split
  · exact h
  · next allowed =>
    rw [ensures_top]
    split
    · exact h
    · refine ⟨h.depth, ?_⟩
      have := h.memo
      simp only [Bool.and_eq_true, Bool.not_eq_true', decide_eq_true_eq, not_and, not_le] at allowed
      rw [Table.size_insert]
      split
      · exact h.memo
      · next absent =>
        have := allowed (by simpa using absent)
        omega

theorem confined_resolvePersistent (c : Cursor) : Confined config (resolvePersistent config c) := by
  refine composable_confined.bind grows_pop.confined fun id m h => ?_
  rw [ensures_bind, ensures_get, ensures_bind]
  refine ensures_ofExcept (fun ref _ => ?_) fun _ _ => h
  rw [ensures_bind]
  refine ensures_ofExcept (fun registered _ => ?_) fun _ _ => h
  rw [ensures_bind, ensures_set]
  exact confined_push _ _ ⟨h.depth, h.memo⟩

/-- No primitive leads beyond the limits. -/
theorem closed_confined : Closed config (Confined config) where
  toComposable := composable_confined
  valuesLeft := (grows_throw _).confined
  protocol _ := Grows.confined (grows_modify (fun _ => rfl) fun _ => rfl)
  trace _ := Grows.confined (grows_modify (fun _ => rfl) fun _ => rfl)
  push := confined_push
  pop _ := grows_pop.confined
  popMark _ := grows_popMark.confined
  mark := confined_mark
  emptyList := confined_pushObject _
  emptyDict := confined_pushObject _
  extendList _ items := (grows_extendList items).confined
  enterItems _ items := (grows_enterItems items).confined
  memoPut := confined_memoPut
  reduce _ := grows_reduce.confined
  build _ := grows_build.confined
  resolvePersistent := confined_resolvePersistent

/-- Every state of a run is within the limits. -/
theorem Reaches.within {s t : Cursor × Machine} (h : Reaches config s t) (hs : s.2.Within config) :
    t.2.Within config :=
  h.induction (P := Within config) (fun _ c h => h.traced c)
    (fun m _ i h => (closed_confined.execute i m h).mono (fun _ _ h => h) fun _ _ _ => trivial) hs

/-- A run with the number of opcodes that it takes from its stream, and what comes of it.  An
opcode counts also if it is unknown, its arguments are cut off, or its instruction fails. -/
inductive Runs (config : Config) :
    Cursor × Machine → Nat → Except Error (Value × Cursor) × Machine → Prop
  | ended {c : Cursor} {m : Machine} {cause : ProtocolError} (rest : c.rest = [])
      (unread : Instruction.read c = .error cause) :
      Runs config (c, m) 0 (.error (.unsupportedProtocol cause), m)
  | unread {c : Cursor} {m : Machine} {cause : ProtocolError} (rest : c.rest ≠ [])
      (unread : Instruction.read c = .error cause) :
      Runs config (c, m) 1 (.error (.unsupportedProtocol cause), m)
  | stops {c next : Cursor} {m m' : Machine} {r : Except Error (Value × Cursor)}
      (read : Instruction.read c = .ok (.stop, next))
      (result : (result next >>= fun v => pure (v, next)).perform m = (r, m')) :
      Runs config (c, m) 1 (r, m')
  | fails {c next : Cursor} {m m' : Machine} {i : Instruction} {e : Error}
      (read : Instruction.read c = .ok (i, next)) (going : i ≠ .stop)
      (failed : (execute config next i).perform m = (.error e, m')) :
      Runs config (c, m) 1 (.error e, m')
  | goes {s t : Cursor × Machine} {n : Nat} {r : Except Error (Value × Cursor) × Machine}
      (first : Moves config s t) (rest : Runs config t n r) : Runs config s (n + 1) r

/-- There is one run from a place and state. -/
theorem Runs.unique {s : Cursor × Machine} {n k : Nat}
    {r r' : Except Error (Value × Cursor) × Machine} (h : Runs config s n r)
    (h' : Runs config s k r') : n = k ∧ r = r' := by
  induction h generalizing k r' with
  | goes first rest ih =>
    cases h' with
    | goes first' rest' =>
      obtain rfl := Option.some.inj ((moves_iff.1 first).symm.trans (moves_iff.1 first'))
      obtain ⟨rfl, rfl⟩ := ih rest'
      exact ⟨rfl, rfl⟩
    | _ => cases first; simp_all
  | ended | unread | stops | fails =>
    cases h' with
    | goes first => cases first; simp_all
    | _ => simp_all

/-- A run takes an opcode of at least one byte each time, so it ends. -/
theorem exists_runs (config : Config) (c : Cursor) (m : Machine) :
    ∃ n ≤ c.rest.length, Runs config (c, m) n ((run config c).perform m) := by
  induction c using run.induct generalizing m with
  | case1 c cause unread =>
    rw [run_of_error unread]
    by_cases rest : c.rest = []
    · exact ⟨0, Nat.zero_le _, .ended rest unread⟩
    · exact ⟨1, List.length_pos_iff.2 rest, .unread rest unread⟩
  | case2 c next read =>
    rw [run_of_stop read]
    have := Instruction.length_rest_lt_of_read read
    exact ⟨1, by omega, .stops read rfl⟩
  | case3 c i next read shorter going ih =>
    rw [run_of_read read going, perform_bind]
    have := Instruction.length_rest_lt_of_read read
    rcases executed : (execute config next i).perform m with ⟨_ | _, m'⟩
    · exact ⟨1, by omega, .fails read going executed⟩
    · obtain ⟨n, short, runs⟩ := ih (m'.traced next)
      exact ⟨n + 1, by omega, .goes (.execute read going executed) runs⟩

/-- What comes of a run is within the limits, also where the run fails. -/
theorem Runs.within {s : Cursor × Machine} {n : Nat} {r : Except Error (Value × Cursor) × Machine}
    (h : Runs config s n r) (hs : s.2.Within config) : r.2.Within config := by
  induction h with
  | ended | unread => exact hs
  | @stops c next m m' r _ result =>
    have ends : Confined config (Machine.result next >>= fun v => pure (v, next)) :=
      (grows_result.after fun _ => grows_pure _).confined
    cases r with
    | ok a => exact (ends m hs).of_ok result
    | error e => exact (ends m hs).of_error result
  | fails _ _ failed => exact (closed_confined.execute _ _ hs).of_error failed
  | goes first _ ih => exact ih (Reaches.within (.single first) hs)

theorem Reaches.size_eq {s t : Cursor × Machine} (h : Reaches config s t) : t.1.size = s.1.size := by
  induction h with
  | refl => rfl
  | tail _ h ih =>
    cases h with
    | execute read going executed => exact (Instruction.read_advances read).1.symm.trans ih

/-- Every state of a run, and the one it ends in, is within the limits.  Every opcode takes the
place in the stream forward and not past its end, so there are no more of them than bytes. -/
theorem load_bounded (config : Config) (arena : Arena) (bytes : Bytes) :
    (∀ s, Reaches config (start arena bytes) s →
      s.2.Within config ∧ s.1.position ≤ bytes.length ∧
      ∀ i next, Instruction.read s.1 = .ok (i, next) →
        s.1.position < next.position ∧ next.position ≤ bytes.length) ∧
    (load config arena bytes).2.Within config ∧
    ∃ n ≤ bytes.length, ∀ k r,
      Runs config (start arena bytes) k r ↔ k = n ∧ r = load config arena bytes := by
  obtain ⟨n, short, runs⟩ := exists_runs config (Cursor.start bytes) { arena }
  refine ⟨fun s reached => ?_, runs.within (within_new arena), n, short, fun k r => ?_⟩
  · have size : s.1.size = bytes.length := reached.size_eq
    refine ⟨reached.within (within_new arena), ?_, fun i next read => ?_⟩
    · have := s.1.size_eq
      omega
    · have := Instruction.read_advances read
      have := next.size_eq
      omega
  · constructor
    · exact fun h => h.unique runs
    · rintro ⟨rfl, rfl⟩
      exact runs

end Checkpoint.Pickle.Machine
