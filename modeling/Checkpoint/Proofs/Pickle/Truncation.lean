import Checkpoint.Proofs.Pickle.References

/-! Streams that are cut short and streams that go on.  What is read depends only on the bytes that
are taken, so bytes behind the stop instruction change nothing, and a stream that ends before it is
refused. -/

namespace Checkpoint.Pickle

namespace Cursor

/-- The same place in a stream with more bytes behind it. -/
structure ContinuedBy (c d : Cursor) : Prop where
  rest : c.rest <+: d.rest
  position : d.position = c.position

variable {c d next : Cursor}

theorem ContinuedBy.size_le (h : c.ContinuedBy d) : c.size ≤ d.size := by
  have := c.size_eq
  have := d.size_eq
  have := h.rest.length_le
  have := h.position
  omega

theorem continuedBy_start {a b : Bytes} (h : a <+: b) : (start a).ContinuedBy (start b) := ⟨h, rfl⟩

theorem ContinuedBy.take {n : Nat} {b : Bytes} (h : c.ContinuedBy d)
    (read : c.take n = .ok (b, next)) :
    ∃ next', d.take n = .ok (b, next') ∧ next.ContinuedBy next' := by
  obtain ⟨more, hd⟩ := h.rest
  have hp := h.position
  have hs := h.size_le
  have hc := c.size_eq
  unfold Cursor.take at read ⊢
  split at read
  · cases read
  · next fits =>
    cases read
    have short : n ≤ c.rest.length := by omega
    have taken : d.rest.take n = c.rest.take n := by
      rw [← hd, List.take_append_of_le_length short]
    have left : c.rest.drop n <+: d.rest.drop n :=
      ⟨more, by rw [← hd, List.drop_append_of_le_length short]⟩
    rw [dif_neg (by omega), taken]
    exact ⟨_, rfl, left, congrArg (· + n) hp⟩

theorem ContinuedBy.takeNat {width n : Nat} (h : c.ContinuedBy d)
    (read : c.takeNat width = .ok (n, next)) :
    ∃ next', d.takeNat width = .ok (n, next') ∧ next.ContinuedBy next' := by
  simp only [Cursor.takeNat, bind_eq_ok, pure, Except.pure, Except.ok.injEq, Prod.mk.injEq] at read
  obtain ⟨⟨b, mid⟩, hb, rfl, rfl⟩ := read
  obtain ⟨next', hb', continued⟩ := h.take hb
  exact ⟨next', by rw [Cursor.takeNat, hb']; rfl, continued⟩

theorem ContinuedBy.takeCounted {width : Nat} {b : Bytes} (h : c.ContinuedBy d)
    (read : c.takeCounted width = .ok (b, next)) :
    ∃ next', d.takeCounted width = .ok (b, next') ∧ next.ContinuedBy next' := by
  simp only [Cursor.takeCounted, bind_eq_ok] at read
  obtain ⟨⟨n, mid⟩, hn, hb⟩ := read
  obtain ⟨mid', hn', continued⟩ := h.takeNat hn
  obtain ⟨next', hb', continued⟩ := continued.take hb
  exact ⟨next', by rw [Cursor.takeCounted, hn']; exact hb', continued⟩

theorem ContinuedBy.takeCountedSigned {width : Nat} {b : Bytes} (h : c.ContinuedBy d)
    (read : c.takeCountedSigned width = .ok (b, next)) :
    ∃ next', d.takeCountedSigned width = .ok (b, next') ∧ next.ContinuedBy next' := by
  simp only [Cursor.takeCountedSigned, bind_eq_ok] at read
  obtain ⟨⟨n, mid⟩, hn, hb⟩ := read
  obtain ⟨mid', hn', continued⟩ := h.take hn
  split at hb
  · simp [bind, Except.bind, throw, throwThe, MonadExceptOf.throw] at hb
  · next count =>
    obtain ⟨next', hb', continued⟩ := continued.take hb
    refine ⟨next', ?_, continued⟩
    rw [Cursor.takeCountedSigned, hn']
    simp only [bind, Except.bind, if_neg count]
    exact hb'

theorem ContinuedBy.takeUtf8 {width : Nat} {t : Text} (h : c.ContinuedBy d)
    (read : c.takeUtf8 width = .ok (t, next)) :
    ∃ next', d.takeUtf8 width = .ok (t, next') ∧ next.ContinuedBy next' := by
  simp only [Cursor.takeUtf8, bind_eq_ok] at read
  obtain ⟨⟨b, mid⟩, hb, ht⟩ := read
  obtain ⟨mid', hb', continued⟩ := h.takeCounted hb
  split at ht
  · next decoded =>
    cases ht
    exact ⟨mid', by simp only [Cursor.takeUtf8, hb', bind, Except.bind, decoded]; rfl, continued⟩
  · cases ht

/-- A newline that was found is the first one also when more follows. -/
theorem ContinuedBy.takeLine {b : Bytes} (h : c.ContinuedBy d)
    (read : c.takeLine = .ok (b, next)) :
    ∃ next', d.takeLine = .ok (b, next') ∧ next.ContinuedBy next' := by
  simp only [Cursor.takeLine, bind_eq_ok, pure, Except.pure, Except.ok.injEq, Prod.mk.injEq] at read
  obtain ⟨⟨taken, mid⟩, ht, rfl, rfl⟩ := read
  have found : d.rest.takeWhile (· ≠ Instruction.newline) =
      c.rest.takeWhile (· ≠ Instruction.newline) := by
    obtain ⟨more, hd⟩ := h.rest
    have := (before_of_take ht).2
    have := (before_of_take ht).1.1
    have := c.size_eq
    have := mid.size_eq
    rw [← hd, List.takeWhile_append, if_neg (by omega)]
  obtain ⟨next', ht', continued⟩ := h.take ht
  refine ⟨next', ?_, continued⟩
  simp only [Cursor.takeLine, found, ht', bind, Except.bind]
  rfl

theorem ascii_eq_ok {b : Bytes} {t : Text} : c.ascii b = .ok t ↔ Text.ofAscii? b = some t := by
  unfold ascii
  split <;> simp_all

end Cursor

namespace Instruction

open Cursor

variable {c d next : Cursor} {i : Instruction}

theorem readArguments_of_continuedBy {op : Opcode} (h : c.ContinuedBy d)
    (read : readArguments op c = .ok (i, next)) :
    ∃ next', readArguments op d = .ok (i, next') ∧ next.ContinuedBy next' := by
  cases op <;>
    simp only [readArguments, bind_eq_ok, pure, Except.pure, Except.ok.injEq, ascii_eq_ok,
      Prod.mk.injEq, Prod.exists] at read ⊢
  case global =>
    obtain ⟨module, mid, hm, module', am, name, _, hn, name', an, rfl, rfl⟩ := read
    obtain ⟨mid', hm', continued⟩ := h.takeLine hm
    obtain ⟨next', hn', continued⟩ := continued.takeLine hn
    exact ⟨next', ⟨module, mid', hm', module', am, name, next', hn', name', an, rfl, rfl⟩, continued⟩
  case binString =>
    obtain ⟨b, mid, hb, t, ht, rfl, rfl⟩ := read
    obtain ⟨next', hb', continued⟩ := h.takeCountedSigned hb
    exact ⟨next', ⟨b, next', hb', t, ht, rfl, rfl⟩, continued⟩
  case shortBinString =>
    obtain ⟨b, mid, hb, t, ht, rfl, rfl⟩ := read
    obtain ⟨next', hb', continued⟩ := h.takeCounted hb
    exact ⟨next', ⟨b, next', hb', t, ht, rfl, rfl⟩, continued⟩
  case binInt | binFloat =>
    obtain ⟨b, mid, hb, rfl, rfl⟩ := read
    obtain ⟨next', hb', continued⟩ := h.take hb
    exact ⟨next', ⟨b, next', hb', rfl, rfl⟩, continued⟩
  case long1 | binBytes | shortBinBytes =>
    obtain ⟨b, mid, hb, rfl, rfl⟩ := read
    obtain ⟨next', hb', continued⟩ := h.takeCounted hb
    exact ⟨next', ⟨b, next', hb', rfl, rfl⟩, continued⟩
  case binUnicode | shortBinUnicode | binUnicode8 =>
    obtain ⟨t, mid, ht, rfl, rfl⟩ := read
    obtain ⟨next', ht', continued⟩ := h.takeUtf8 ht
    exact ⟨next', ⟨t, next', ht', rfl, rfl⟩, continued⟩
  case proto | frame | binInt1 | binInt2 | binPut | longBinPut | binGet | longBinGet =>
    obtain ⟨n, mid, hn, rfl, rfl⟩ := read
    obtain ⟨next', hn', continued⟩ := h.takeNat hn
    exact ⟨next', ⟨n, next', hn', rfl, rfl⟩, continued⟩
  all_goals
    obtain ⟨rfl, rfl⟩ := read
    exact ⟨d, ⟨rfl, rfl⟩, h⟩

/-- An instruction that was read is read also when more follows. -/
theorem read_of_continuedBy (h : c.ContinuedBy d) (hi : read c = .ok (i, next)) :
    ∃ next', read d = .ok (i, next') ∧ next.ContinuedBy next' := by
  unfold read at hi ⊢
  split at hi
  · cases hi
  · next b mid hb =>
    obtain ⟨mid', hb', continued⟩ := h.take hb
    rw [hb']
    dsimp only at hi ⊢
    split at hi
    · cases hi
    · exact readArguments_of_continuedBy continued hi

end Instruction

namespace Machine

open Archive Effect

variable {config : Config} {c d e next : Cursor} {m m' : Machine} {v : Value}

/-- Of the place behind it, an instruction looks only at the position; a frame also at the end of the
stream. -/
theorem execute_of_position (h : d.position = c.position) {i : Instruction}
    (other : ∀ size, i ≠ .frame size) : execute config d i = execute config c i := by
  obtain ⟨_, _, _, _⟩ := c
  obtain ⟨_, _, _, _⟩ := d
  cases h
  cases i with
  | frame size => exact absurd rfl (other size)
  | _ => rfl

theorem perform_frame (size : UInt64) : (execute config c (.frame size)).perform m =
    if c.size < c.position + size.toNat then
      (.error (.unsupportedProtocol (.frame size.toNat)), m)
    else (.ok (), m) := by
  simp only [execute]
  split <;> rfl

/-- An instruction that succeeds in a stream succeeds alike if more follows. -/
theorem executed_of_continuedBy (h : c.ContinuedBy d) {i : Instruction}
    (executed : (execute config c i).perform m = (.ok (), m')) :
    (execute config d i).perform m = (.ok (), m') := by
  by_cases framed : ∃ size, i = .frame size
  · obtain ⟨size, rfl⟩ := framed
    rw [perform_frame] at executed ⊢
    split at executed
    · cases executed
    · have := h.size_le
      have := h.position
      rw [if_neg (by omega)]
      exact executed
  · rw [execute_of_position h.position (not_exists.1 framed)]
    exact executed

/-- Where a stream is cut, an instruction does the same or refuses its frame. -/
theorem executed_of_cut (h : c.ContinuedBy d) {i : Instruction}
    (executed : (execute config d i).perform m = (.ok (), m')) :
    (execute config c i).perform m = (.ok (), m') ∨
      ∃ cause, (execute config c i).perform m = (.error (.unsupportedProtocol cause), m) := by
  by_cases framed : ∃ size, i = .frame size
  · obtain ⟨size, rfl⟩ := framed
    rw [perform_frame] at executed ⊢
    split at executed
    · cases executed
    · split
      · exact .inr ⟨_, rfl⟩
      · exact .inl executed
  · rw [execute_of_position h.position (not_exists.1 framed)] at executed
    exact .inl executed

theorem traced_of_position (h : d.position = c.position) (m : Machine) : m.traced d = m.traced c := by
  simp only [traced, snapshot, h]

theorem result_of_position (h : d.position = c.position) : result d = result c := by
  simp only [result, pop, lastOffset, h]

/-- A run to the stop instruction is made alike if more follows. -/
theorem run_of_continuedBy (c : Cursor) {d : Cursor} (h : c.ContinuedBy d)
    (ran : (run config c).perform m = (.ok (v, e), m')) :
    ∃ e', (run config d).perform m = (.ok (v, e'), m') ∧ e.ContinuedBy e' := by
  induction c using run.induct generalizing d m with
  | case1 c cause unread =>
    rw [run_of_error unread] at ran
    cases ran
  | case2 c next read =>
    obtain ⟨next', read', continued⟩ := Instruction.read_of_continuedBy h read
    rw [run_of_stop read, perform_bind_eq_ok] at ran
    obtain ⟨v, m', hv, returned⟩ := ran
    cases returned
    refine ⟨next', ?_, continued⟩
    rw [run_of_stop read', result_of_position continued.position, perform_bind_eq_ok]
    exact ⟨v, m', hv, rfl⟩
  | case3 c i next read shorter going ih =>
    obtain ⟨next', read', continued⟩ := Instruction.read_of_continuedBy h read
    rw [run_of_read read going, perform_bind_eq_ok] at ran
    obtain ⟨_, m₁, executed, ran⟩ := ran
    obtain ⟨e', ran', ended⟩ := ih (m := m₁.traced next) continued ran
    refine ⟨e', ?_, ended⟩
    rw [run_of_read read' going, perform_bind_eq_ok]
    refine ⟨(), m₁, executed_of_continuedBy continued executed, ?_⟩
    rw [← traced_of_position continued.position] at ran'
    exact ran'

/-- A run to the stop instruction is refused in a stream that is cut before it. -/
theorem run_of_cut (c : Cursor) {d : Cursor} (h : c.ContinuedBy d)
    (ran : (run config d).perform m = (.ok (v, e), m')) (cut : c.size < e.position) :
    ∃ cause m'', (run config c).perform m = (.error (.unsupportedProtocol cause), m'') := by
  induction c using run.induct generalizing d m with
  | case1 c cause unread =>
    rw [run_of_error unread]
    exact ⟨cause, m, rfl⟩
  | case2 c next read =>
    -- The stop instruction lies in both streams, so the longer one ends its run there too.
    obtain ⟨next', read', continued⟩ := Instruction.read_of_continuedBy h read
    rw [run_of_stop read', perform_bind_eq_ok] at ran
    obtain ⟨v, m', hv, returned⟩ := ran
    cases returned
    have := continued.position
    have := (Instruction.read_advances read).1
    have := next.size_eq
    omega
  | case3 c i next read shorter going ih =>
    obtain ⟨next', read', continued⟩ := Instruction.read_of_continuedBy h read
    rw [run_of_read read' going, perform_bind_eq_ok] at ran
    obtain ⟨_, m₁, executed, ran⟩ := ran
    rw [run_of_read read going, perform_bind]
    obtain executed | ⟨cause, refused⟩ := executed_of_cut continued executed
    · have size := (Instruction.read_advances read).1
      have again : (run config next').perform (m₁.traced next) = (.ok (v, e), m') := by
        rw [← traced_of_position continued.position]
        exact ran
      obtain ⟨cause, m'', refused⟩ := ih continued again (size ▸ cut)
      rw [executed]
      exact ⟨cause, m'', refused⟩
    · rw [refused]
      exact ⟨cause, m, rfl⟩

/-- Bytes behind the stop instruction change nothing of what a stream is loaded as, and each
proper part of the stream up to there is refused. -/
theorem load_prefix {arena : Arena} {bytes : Bytes}
    (loaded : load config arena bytes = (.ok (v, c), m)) :
    (∀ more, ∃ c', load config arena (bytes ++ more) = (.ok (v, c'), m) ∧
      c'.position = c.position) ∧
    ∀ part, part <+: bytes.take c.position → part ≠ bytes.take c.position →
      ∃ cause m', load config arena part = (.error (.unsupportedProtocol cause), m') := by
  constructor
  · intro more
    obtain ⟨c', ran, continued⟩ :=
      run_of_continuedBy _ (Cursor.continuedBy_start (List.prefix_append bytes more)) loaded
    exact ⟨c', ran, continued.position⟩
  · intro part initial proper
    have whole := initial.trans (List.take_prefix c.position bytes)
    apply run_of_cut _ (Cursor.continuedBy_start whole) loaded
    have shorter : part.length < (bytes.take c.position).length := by
      refine Nat.lt_of_le_of_ne initial.length_le fun equal => proper ?_
      exact initial.eq_of_length equal
    rw [List.length_take] at shorter
    exact (Nat.lt_min.1 shorter).1

/-- Two references in a frame, and bytes behind the stop instruction. -/
def framedReferring : Bytes :=
  [Instruction.proto 4, .frame 86].flatMap Instruction.encode ++ twiceReferring ++ [0x2e, 0xff]

theorem load_prefix_framedReferring : ∃ v c m,
    load {} (.ofReader fourBytes) framedReferring = (.ok (v, c), m) ∧
    c.position + 2 = framedReferring.length ∧
    (∀ more, ∃ c', load {} (.ofReader fourBytes) (framedReferring ++ more) = (.ok (v, c'), m) ∧
      c'.position = c.position) ∧
    ∀ part, part <+: framedReferring.take c.position → part ≠ framedReferring.take c.position →
      ∃ cause m', load {} (.ofReader fourBytes) part =
        (.error (.unsupportedProtocol cause), m') := by
  have ends : (load {} (.ofReader fourBytes) framedReferring).1.toOption.map (·.2.position + 2) =
      some framedReferring.length := by
    decide +kernel
  obtain ⟨⟨v, c⟩, m, loaded, last⟩ := exists_done_of_map ends
  exact ⟨v, c, m, loaded, last, load_prefix loaded⟩

end Machine

end Checkpoint.Pickle
