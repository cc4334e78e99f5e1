import Checkpoint.Proofs.Effect
import Checkpoint.Proofs.Json.Printable
import Checkpoint.Proofs.Json.Size
import Mathlib.Data.List.TakeWhile

/-! What is read from a text.  Its numbers can be spelled, no object in it has a key twice, and whatever blanks
and escapes the text has, it is written as no more bytes.  A failure tells no number that is out of
proportion to the text. -/

namespace Checkpoint.Json

open Text Value

/-- Documents whose whole numbers can all be spelled, and in which no object has a key twice. -/
inductive Value.Regular : Value → Prop
  | null : Regular .null
  | bool (b : Bool) : Regular (.bool b)
  | int {n : Int} : Checkpoint.Printable n.natAbs → Regular (.int n)
  | float (x : Double) : Regular (.float x)
  | text (t : Text) : Regular (.text t)
  | array {items : List Value} : (∀ v ∈ items, Regular v) → Regular (.array items)
  | object {entries : List (Text × Value)} : (entries.map Prod.fst).Nodup →
    (∀ e ∈ entries, Regular e.2) → Regular (.object entries)

theorem Value.Regular.printable {v : Value} (h : v.Regular) : v.Printable := by
  induction h with
  | null => exact .null
  | bool b => exact .bool b
  | int small => exact .int small
  | float x => exact .float x
  | text t => exact .text t
  | array _ ih => exact .array ih
  | object _ _ ih => exact .object ih

section Scans

variable {α β : Type} {m n : Nat} {P : α → Prop} {Q : β → Prop} {size : α → Nat} {size' : β → Nat}
  {points rest : List CodePoint}

/-- What is read is as it has to be, and needs at most `n` bytes together with what is left after it. -/
def Takes (n : Nat) (P : α → Prop) (size : α → Nat) (found : Except Failure (α × List CodePoint)) :
    Prop :=
  Gives found (fun found => P found.1 ∧ size found.1 + space found.2 ≤ n) (Failure.Within n)

theorem takes_ok {a : α} (ha : P a) (h : size a + space rest ≤ n) : Takes n P size (.ok (a, rest)) :=
  ⟨ha, h⟩

theorem takes_faultAt {cause : JsonFault} {left : List CodePoint} :
    Takes n P size (faultAt cause left) :=
  trivial

theorem Failure.Within.mono {failure : Failure} (h : failure.Within m) (le : m ≤ n) : failure.Within n := by
  cases failure with
  | digitLimit => exact Nat.le_trans h le
  | _ => trivial

theorem Takes.mono {x : Except Failure (α × List CodePoint)} (h : Takes m P size x) (le : m ≤ n) :
    Takes n P size x :=
  Gives.mono h (fun _ taken => ⟨taken.1, taken.2.trans le⟩) fun _ within => within.mono le

theorem Takes.bind {x : Except Failure (α × List CodePoint)}
    {f : α × List CodePoint → Except Failure (β × List CodePoint)} (h : Takes m P size x) (le : m ≤ n)
    (next : ∀ a rest, P a → size a + space rest ≤ m → Takes n Q size' (f (a, rest))) :
    Takes n Q size' (x >>= f) :=
  Gives.bind (Gives.mono h (fun _ taken => taken) fun _ within => within.mono le)
    fun found taken => next found.1 found.2 taken.1 taken.2

/-! ### Texts -/

theorem space_codeUnit? {unit : Fin 0x10000} (h : codeUnit? points = some (unit, rest)) :
    4 + space rest ≤ space points := by
  unfold codeUnit? at h
  split at h
  · next a b c d after =>
    split at h
    · cases h
    · simp only [Option.bind_eq_bind, Option.bind_eq_some_iff, Option.pure_def, Option.some.injEq,
        Prod.mk.injEq] at h
      obtain ⟨_, _, _, _, _, _, _, _, _, rfl⟩ := h
      simp only [space_cons]
      have := length_utf8Point_pos a
      have := length_utf8Point_pos b
      have := length_utf8Point_pos c
      have := length_utf8Point_pos d
      omega
  · cases h

/-- No code point is written as more than the escape of a control character. -/
theorem space_escape_le (c : CodePoint) : space (escape c) ≤ 6 := by
  by_cases ascii : c.val < 0x80
  · have all : ∀ d ∈ escape c, d.val < 0x80 := fun d hd =>
      (eq_or_lt_of_mem_escape hd).elim (fun same => same ▸ ascii) id
    have short : (escape c).length ≤ 6 := by
      unfold escape
      split
      · exact Nat.le_add_left 2 4
      · split
        · split
          · exact Nat.le_add_left 2 4
          · exact Nat.le_refl 6
        · exact Nat.le_add_left 1 5
    rwa [space_ascii all]
  · have plain : ¬ (c = doubleQuote ∨ c = backslash) := by
      rintro (rfl | rfl) <;> exact ascii (by decide)
    rw [escape, if_neg plain, if_neg (by omega), space_cons, space_nil, length_utf8Point]
    split_ifs <;> omega

theorem space_escape_of_escaped? {c p : CodePoint} (h : escaped? c = some p) : space (escape p) ≤ 2 := by
  unfold escaped? at h
  split at h
  · next plain =>
    cases h
    obtain rfl | rfl | rfl := plain <;> decide
  · have letters : letterEscapes.all (fun row => space (escape row.1) ≤ 2) = true := by
      decide
    simp only [List.all_eq_true, decide_eq_true_eq] at letters
    obtain ⟨row, found, rfl⟩ := Option.map_eq_some_iff.1 h
    exact letters row (List.mem_of_find?_eq_some found)

/-- An escape with a code unit takes six bytes or more, and its code point is written as no more. -/
theorem takes_unicodeEscape (h : 2 + space points.tail ≤ n) :
    Takes n (fun _ => True) (fun c => space (escape c)) (unicodeEscape points) := by
  unfold unicodeEscape
  split
  · exact takes_faultAt
  · next unit rest found =>
    have first := space_codeUnit? found
    have short (c : CodePoint) {rest : List CodePoint} (h : 6 + space rest ≤ n) :
        Takes n (fun _ => True) (fun c => space (escape c)) (.ok (c, rest)) := by
      have := space_escape_le c
      exact takes_ok trivial (by omega)
    dsimp only
    split
    · next b u more =>
      split
      · split
        · exact takes_faultAt
        · next second after found =>
          have := space_codeUnit? found
          split
          · exact short _ (by simp only [space_cons] at first; omega)
          · exact short _ (by omega)
      · exact short _ (by omega)
    · exact short _ (by omega)

theorem takes_character (start : Nat) {c : CodePoint} (h : c ≠ doubleQuote) (rest : List CodePoint) :
    Takes (space (c :: rest)) (fun _ => True) (fun c => space (escape c)) (character start c rest) := by
  have first := length_utf8Point_pos c
  unfold character
  split
  · split
    · trivial
    · next letter after =>
      have second := length_utf8Point_pos letter
      split
      · apply takes_unicodeEscape
        rw [List.tail_cons, space_cons, space_cons]
        omega
      · split
        · next p found =>
          have := space_escape_of_escaped? found
          exact takes_ok trivial (by rw [space_cons, space_cons]; omega)
        · exact takes_faultAt
  · next plain =>
    split
    · exact takes_faultAt
    · next high =>
      refine takes_ok trivial ?_
      rw [escape, if_neg (not_or.2 ⟨h, plain⟩), if_neg high, space_cons, space_cons, space_nil,
        Nat.add_zero]

theorem takes_characters (start fuel : Nat) (points : List CodePoint) :
    Takes (space points) (fun _ => True) (fun content => space (content.flatMap escape) + 1)
      (characters start fuel points) := by
  induction fuel generalizing points with
  | zero => trivial
  | succ fuel ih =>
    cases points with
    | nil => trivial
    | cons c rest =>
      rw [characters]
      split
      · have := length_utf8Point_pos c
        refine takes_ok trivial ?_
        rw [List.flatMap_nil, space_nil, space_cons]
        omega
      · next other =>
        refine (takes_character start other rest).bind (Nat.le_refl _) fun p rest _ first => ?_
        refine (ih rest).bind (by omega) fun content rest _ others => takes_ok trivial ?_
        rw [List.flatMap_cons, space_append]
        omega

theorem takes_string (points : List CodePoint) :
    Takes (space points + 1) (fun _ => True) (fun t => (literal t).utf8.length) (string points) := by
  refine (takes_characters _ _ points).bind (Nat.le_succ _) fun content rest _ taken => takes_ok trivial ?_
  rw [length_literal]
  dsimp only
  omega

/-! ### Numbers -/

theorem value_lt {digits : List CodePoint} (h : ∀ c ∈ digits, Decimal.isDigit c = true) :
    Decimal.value digits < 10 ^ digits.length := by
  have bound (start : Nat) : digits.foldl (fun n c => 10 * n + Decimal.digitValue c) start <
      (start + 1) * 10 ^ digits.length := by
    induction digits generalizing start with
    | nil => rw [List.foldl_nil, List.length_nil]; omega
    | cons c digits ih =>
      rw [List.forall_mem_cons] at h
      have small : Decimal.digitValue c < 10 := by
        have digit := h.1
        simp only [Decimal.isDigit, Bool.and_eq_true, decide_eq_true_eq] at digit
        unfold Decimal.digitValue
        omega
      have next := ih h.2 (10 * start + Decimal.digitValue c)
      rw [List.foldl_cons, List.length_cons, Nat.pow_succ, Nat.mul_comm (10 ^ digits.length) 10,
        ← Nat.mul_assoc]
      exact Nat.lt_of_lt_of_le next (Nat.mul_le_mul_right _ (by omega))
  have := bound 0
  rwa [Nat.zero_add, Nat.one_mul] at this

theorem of_wholePart? {whole : List CodePoint} (h : wholePart? points = some (whole, rest)) :
    whole ≠ [] ∧ (∀ c ∈ whole, Decimal.isDigit c = true) ∧ whole ++ rest = points := by
  unfold wholePart? at h
  split at h
  · cases h
  · next c after =>
    split at h
    · next zero =>
      cases h
      refine ⟨List.cons_ne_nil _ _, ?_, rfl⟩
      rw [List.forall_mem_singleton, zero]
      decide
    · split at h
      · next digit =>
        cases h
        refine ⟨?_, fun _ hc => List.mem_takeWhile_imp hc, List.takeWhile_append_dropWhile⟩
        rw [List.takeWhile_cons_of_pos digit]
        exact List.cons_ne_nil _ _
      · cases h

theorem suffix_snd_ite {q : Prop} [Decidable q] {a b : α × List CodePoint} (ha : a.2 <:+ points)
    (hb : b.2 <:+ points) : (if q then a else b).2 <:+ points := by
  split
  · exact ha
  · exact hb

theorem suffix_fraction (points : List CodePoint) : (fraction points).2 <:+ points := by
  unfold fraction
  split
  · next c rest =>
    exact suffix_snd_ite ((List.dropWhile_suffix _).trans (List.suffix_cons c rest)) List.suffix_rfl
  · exact List.suffix_rfl

theorem suffix_exponent (points : List CodePoint) : (exponent points).2 <:+ points := by
  unfold exponent
  split
  · next c rest =>
    dsimp only
    apply suffix_snd_ite
    · refine (List.dropWhile_suffix _).trans (List.IsSuffix.trans ?_ (List.suffix_cons c rest))
      cases rest with
      | nil => exact List.suffix_rfl
      | cons s tail =>
        dsimp only
        split
        · exact List.suffix_cons _ _
        · split
          · exact List.suffix_cons _ _
          · exact List.suffix_rfl
    · exact List.suffix_rfl
  · exact List.suffix_rfl

/-- A sign takes a byte, and so does each of the digits, of which a number has no more than are read. -/
theorem length_ofInt_le {digits : List CodePoint} (filled : digits ≠ [])
    (decimal : ∀ c ∈ digits, Decimal.isDigit c = true) (negative : Bool) :
    (ofInt (if negative then -(Decimal.value digits : Int) else Decimal.value digits)).utf8.length ≤
      digits.length + negative.toNat := by
  have unsigned := length_utf8_ofNat (List.length_pos_iff.2 filled) (value_lt decimal)
  cases negative with
  | false => exact unsigned
  | true =>
    rw [if_pos rfl]
    cases hn : Decimal.value digits with
    | zero =>
      rw [hn] at unsigned
      exact Nat.le_succ_of_le unsigned
    | succ n =>
      rw [hn] at unsigned
      change space ("-" ++ ofNat (n + 1)).points ≤ _
      rw [points_append, space_append]
      change 1 + (ofNat (n + 1)).utf8.length ≤ digits.length + 1
      omega

theorem takes_number (points : List CodePoint) :
    Takes (space points) Regular Value.size (number points) := by
  unfold number
  split
  next negative unsigned signed =>
  have sign : negative.toNat + space unsigned ≤ space points := by
    split at signed
    · next c rest =>
      have := length_utf8Point_pos c
      split at signed <;> cases signed
      · rw [space_cons, Bool.toNat_true]
        omega
      · rw [Bool.toNat_false]
        omega
    · cases signed
      exact Nat.le_refl _
  split
  · exact takes_faultAt
  · next whole rest found =>
    obtain ⟨filled, decimal, split⟩ := of_wholePart? found
    have digits := length_le_space whole
    have left := space_suffix ((suffix_exponent (fraction rest).2).trans (suffix_fraction rest))
    rw [← split, space_append] at sign
    dsimp only
    split
    · split
      · change whole.length ≤ space points
        omega
      · next limit =>
        have := length_ofInt_le filled decimal negative
        have value := Nat.lt_of_lt_of_le (value_lt decimal)
          (Nat.pow_le_pow_right (by decide) (Nat.le_of_not_lt limit))
        refine takes_ok (.int ?_) ?_
        · unfold Checkpoint.Printable
          split <;> simpa using value
        · rw [Value.size]
          omega
    · have := List.length_pos_iff.2 filled
      refine takes_ok (.float _) ?_
      rw [Value.size]
      omega

/-! ### Documents -/

theorem takes_word? {found : Value × List CodePoint} (h : word? points = some found) :
    found.1.Regular ∧ found.1.size + space found.2 ≤ space points := by
  have known : ∀ row ∈ words, row.2.Regular ∧ row.2.size ≤ row.1.length := by
    simp only [words, List.forall_mem_cons]
    exact ⟨⟨.null, by decide⟩, ⟨.bool _, by decide⟩, ⟨.bool _, by decide⟩, ⟨.float _, by decide⟩,
      ⟨.float _, by decide⟩, ⟨.float _, by decide⟩, List.forall_mem_nil _⟩
  unfold word? at h
  obtain ⟨⟨spelling, v⟩, hr, rfl⟩ := Option.map_eq_some_iff.1 h
  obtain ⟨distinct, short⟩ := known _ (List.mem_of_find?_eq_some hr)
  have starts := List.find?_some hr
  obtain ⟨rest, rfl⟩ := List.isPrefixOf_iff_prefix.1 starts
  have spelled : spelling.length ≤ space spelling.points := length_le_space _
  have left : (spelling.points ++ rest).drop spelling.length = rest := List.drop_left
  refine ⟨distinct, ?_⟩
  dsimp only at short ⊢
  rw [left, space_append]
  omega

variable {item : Scan α}

/-- Each item comes with what is behind it, and a list without any with its closing bracket. -/
theorem takes_items (each : ∀ points, Takes (space points) P size (item points)) (close : CodePoint)
    (fuel : Nat) (points : List CodePoint) :
    Takes (space points) (fun values => ∀ v ∈ values, P v) (fun values => max 1 (total size values))
      (items item close fuel points) := by
  induction fuel generalizing points with
  | zero => exact takes_faultAt
  | succ fuel ih =>
    rw [items]
    refine (each points).bind (Nat.le_refl _) fun a rest ha first => ?_
    have skipped := space_skip rest
    dsimp only
    split
    · exact takes_faultAt
    · next c after left =>
      have := length_utf8Point_pos c
      rw [left, space_cons] at skipped
      split
      · refine takes_ok (List.forall_mem_singleton.2 ha) ?_
        rw [total_cons, total_nil]
        omega
      · split
        · have := space_skip after
          refine (ih (skip after)).bind (by omega) fun others rest ho taken => ?_
          refine takes_ok (List.forall_mem_cons.2 ⟨ha, ho⟩) ?_
          dsimp only
          rw [total_cons]
          omega
        · exact takes_faultAt

theorem takes_enclosed (each : ∀ points, Takes (space points) P size (item points))
    (close : CodePoint) (points : List CodePoint) :
    Takes (space points) (fun values => ∀ v ∈ values, P v) (fun values => max 1 (total size values))
      (enclosed item close points) := by
  have skipped := space_skip points
  have several : Takes (space points) (fun values => ∀ v ∈ values, P v)
      (fun values => max 1 (total size values))
      (items item close ((skip points).length + 1) (skip points)) :=
    (takes_items each close _ _).mono skipped
  unfold enclosed
  dsimp only
  split
  · next c rest left =>
    have := length_utf8Point_pos c
    split
    · rw [left, space_cons] at skipped
      refine takes_ok (List.forall_mem_nil _) ?_
      rw [total_nil]
      omega
    · exact left ▸ several
  · exact several

variable {read : Scan Value}

theorem takes_entry (each : ∀ points, Takes (space points) Regular Value.size (read points))
    (points : List CodePoint) :
    Takes (space points) (fun e => e.2.Regular) entrySize (entry read points) := by
  unfold entry
  split
  · exact takes_faultAt
  · next c rest =>
    have := length_utf8Point_pos c
    rw [space_cons]
    split
    · refine (takes_string rest).bind (by omega) fun key rest _ named => ?_
      have skipped := space_skip rest
      dsimp only
      split
      · exact takes_faultAt
      · next d after left =>
        have := length_utf8Point_pos d
        have := space_skip after
        rw [left, space_cons] at skipped
        split
        · refine (each (skip after)).bind (by omega) fun v rest hv taken => takes_ok hv ?_
          rw [entrySize]
          dsimp only
          omega
        · exact takes_faultAt
    · exact takes_faultAt

theorem takes_object (each : ∀ points, Takes (space points) Regular Value.size (read points))
    (points : List CodePoint) :
    Takes (space points)
      (fun entries => (entries.map Prod.fst).Nodup ∧ ∀ e ∈ entries, e.2.Regular)
      (fun entries => max 1 (total entrySize entries)) (object read points) := by
  refine (takes_enclosed (takes_entry each) _ points).bind (Nat.le_refl _) fun entries rest he taken => ?_
  dsimp only
  split
  · trivial
  · next apart => exact takes_ok ⟨(nodup_of_repeated? apart).1, he⟩ taken

theorem takes_value (depth : Nat) (points : List CodePoint) :
    Takes (space points) Regular Value.size (value depth points) := by
  induction depth generalizing points with
  | zero => exact takes_faultAt
  | succ depth ih =>
    cases points with
    | nil => exact takes_faultAt
    | cons c rest =>
      have first := length_utf8Point_pos c
      have whole : space (c :: rest) = (utf8Point c).length + space rest := space_cons
      rw [value]
      split
      · refine (takes_string rest).bind (by omega) fun t rest _ taken => takes_ok (.text t) ?_
        rw [Value.size]
        omega
      · split
        · refine (takes_object ih rest).bind (by omega) fun entries rest he taken => ?_
          refine takes_ok (.object he.1 he.2) ?_
          rw [size_object]
          omega
        · split
          · refine (takes_enclosed ih _ rest).bind (by omega) fun values rest hv taken => ?_
            refine takes_ok (.array hv) ?_
            rw [size_array]
            omega
          · split
            · next found word => exact takes_word? word
            · exact takes_number _

theorem within_locate {points : List CodePoint} (enough : points.length ≤ n) {failure : Failure}
    (h : failure.Within n) : (failure.locate points).Within n := by
  cases failure with
  | fault cause left =>
    have lines : ((points.take (points.length - left)).count 0x0a) ≤ points.length :=
      Nat.le_trans List.count_le_length (List.length_take_le' ..)
    have columns : ((points.take (points.length - left)).reverse.takeWhile (· ≠ 0x0a)).length ≤
        points.length := by
      refine Nat.le_trans (List.takeWhile_prefix _).length_le ?_
      rw [List.length_reverse]
      exact List.length_take_le' ..
    exact ⟨by omega, by omega, by omega⟩
  | digitLimit digits => exact h
  | duplicateKey key => trivial

/-- Whatever the text, the document is regular and not longer, or the fault in it can be spelled. -/
theorem gives_parse (t : Text) : Gives (parse t) (fun v => v.Regular ∧ v.size ≤ t.utf8.length)
    (JsonError.Within t.utf8.length) := by
  have read : Gives (document t.points) (fun v => v.Regular ∧ v.size ≤ space t.points)
      (Failure.Within (space t.points)) := by
    unfold document
    split
    · trivial
    · refine Gives.bind ((takes_value _ _).mono (space_skip _)) fun found taken => ?_
      dsimp only
      split
      · exact ⟨taken.1, Nat.le_of_add_right_le taken.2⟩
      · trivial
  exact (read.mono (fun _ h => h) fun _ => within_locate (length_le_space _)).mapError

end Scans

end Checkpoint.Json
