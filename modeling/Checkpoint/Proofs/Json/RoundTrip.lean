import Checkpoint.Json.Scan
import Checkpoint.Proofs.List
import Checkpoint.Proofs.Text

/-! Documents of texts, natural numbers, lists and objects: they are read as they were written, and can be
encoded if their texts can. -/

namespace Checkpoint.Json

open Text Value

/-! ### Texts -/

theorem hexValue?_hexDigit (n : Nat) : hexValue? (hexDigit n) = some (n % 16) := by
  unfold hexDigit hexValue?
  split
  · next small =>
    rw [if_pos ⟨by dsimp only; omega, by dsimp only; omega⟩]
    exact congrArg some (Nat.add_sub_cancel_left ..)
  · next large =>
    rw [if_neg (by dsimp only; omega), if_pos ⟨by dsimp only; omega, by dsimp only; omega⟩]
    exact congrArg some (Nat.add_sub_cancel_left ..)

theorem codeUnit?_hexDigits {n : Nat} (h : n < 0x10000) {rest : List CodePoint} (more : rest ≠ []) :
    codeUnit? (hexDigits 4 n ++ rest) = some (⟨n, h⟩, rest) := by
  have digits : hexDigits 4 n ++ rest =
      hexDigit (n / 16 / 16 / 16) :: hexDigit (n / 16 / 16) :: hexDigit (n / 16) :: hexDigit n :: rest :=
    rfl
  have unit : Fin.ofNat 0x10000 (((n / 16 / 16 / 16 % 16 * 16 + n / 16 / 16 % 16) * 16 +
      n / 16 % 16) * 16 + n % 16) = ⟨n, h⟩ := by
    apply Fin.ext
    rw [Fin.val_ofNat]
    dsimp only
    omega
  rw [digits, codeUnit?, if_neg (by simpa using more)]
  simp only [hexValue?_hexDigit, Option.bind_eq_bind, Option.bind_some, Option.pure_def, unit]

/-- A control character is no surrogate, so its escape stands alone. -/
theorem unicodeEscape_control {c : CodePoint} (h : c.val < 0x20) {rest : List CodePoint}
    (more : rest ≠ []) : unicodeEscape (0x75 :: (hexDigits 4 c.val ++ rest)) = .ok (c, rest) := by
  have low : isHigh c.val = false := by
    simp only [isHigh, Bool.and_eq_false_iff, decide_eq_false_iff_not]
    omega
  unfold unicodeEscape
  rw [List.tail_cons, codeUnit?_hexDigits (by omega) more]
  dsimp only
  split
  · simp only [low, Bool.false_and, Bool.false_eq_true, if_false]
    rfl
  · rfl

theorem escaped?_letter : ∀ row ∈ letterEscapes, row.2 ≠ 0x75 ∧ escaped? row.2 = some row.1 := by
  have letters : letterEscapes.all (fun row => row.2 ≠ 0x75 ∧ escaped? row.2 = some row.1) = true := by
    decide
  simpa only [List.all_eq_true, decide_eq_true_eq] using letters

/-- An escape is read as the code point that it was made for. -/
theorem character_escape (start : Nat) (c : CodePoint) {rest : List CodePoint} (more : rest ≠ []) :
    ∃ first others, escape c ++ rest = first :: others ∧ first ≠ doubleQuote ∧
      character start first others = .ok (c, rest) := by
  have backslash_ne : backslash ≠ doubleQuote := by
    decide
  unfold escape
  split
  · next quoted =>
    refine ⟨backslash, c :: rest, rfl, backslash_ne, ?_⟩
    have known : escaped? c = some c := if_pos (quoted.imp_right .inl)
    have other : c ≠ 0x75 := by
      rintro rfl
      revert quoted
      decide
    rw [character, if_pos rfl]
    simp only [if_neg other, known]
  · next plain =>
    rw [not_or] at plain
    split
    · next control =>
      split
      · next letter found =>
        refine ⟨backslash, letter :: rest, rfl, backslash_ne, ?_⟩
        obtain ⟨other, known⟩ := escaped?_letter _ (List.mem_of_find?_eq_some found)
        have same := List.find?_some found
        obtain rfl := eq_of_beq same
        rw [character, if_pos rfl]
        simp only [if_neg other, known]
      · refine ⟨backslash, 0x75 :: (hexDigits 4 c.val ++ rest), rfl, backslash_ne, ?_⟩
        rw [character, if_pos rfl]
        exact unicodeEscape_control control more
    · next high =>
      refine ⟨c, rest, rfl, plain.1, ?_⟩
      unfold character
      rw [if_neg plain.2, if_neg high]

theorem escape_ne_nil (c : CodePoint) : escape c ≠ [] := by
  unfold escape
  split
  · nofun
  · split
    · split <;> nofun
    · nofun

theorem length_le_flatMap_escape (points : List CodePoint) :
    points.length ≤ (points.flatMap escape).length := by
  induction points with
  | nil => exact Nat.zero_le _
  | cons c points ih =>
    have := List.length_pos_iff.2 (escape_ne_nil c)
    rw [List.flatMap_cons, List.length_append, List.length_cons]
    omega

theorem characters_escaped (start : Nat) {points : List CodePoint} {fuel : Nat}
    (h : points.length < fuel) (rest : List CodePoint) :
    characters start fuel (points.flatMap escape ++ doubleQuote :: rest) = .ok (points, rest) := by
  induction points generalizing fuel with
  | nil =>
    obtain ⟨fuel, rfl⟩ := Nat.exists_eq_succ_of_ne_zero (Nat.ne_zero_of_lt h)
    exact if_pos rfl
  | cons c points ih =>
    obtain ⟨fuel, rfl⟩ := Nat.exists_eq_succ_of_ne_zero (Nat.ne_zero_of_lt h)
    have more : points.flatMap escape ++ doubleQuote :: rest ≠ [] := by
      simp
    obtain ⟨first, others, split, other, read⟩ := character_escape start c more
    rw [List.flatMap_cons, List.append_assoc, split, characters, if_neg other, read]
    simp only [bind, Except.bind, ih (Nat.lt_of_succ_lt_succ h), pure, Except.pure]

theorem string_escaped (t : Text) (rest : List CodePoint) :
    string (t.points.flatMap escape ++ doubleQuote :: rest) = .ok (t, rest) := by
  have enough : t.points.length <
      (t.points.flatMap escape ++ doubleQuote :: rest).length + 1 := by
    have := length_le_flatMap_escape t.points
    rw [List.length_append]
    omega
  unfold string
  rw [characters_escaped _ enough]
  rfl

/-! ### Numbers -/

/-- Whether a number ends where these code points begin. -/
def EndsNumber (rest : List CodePoint) : Prop :=
  ∀ c ∈ rest.head?, Decimal.isDigit c = false ∧ c ≠ point ∧ c ≠ 0x65 ∧ c ≠ 0x45

theorem endsNumber_cons {c : CodePoint} (h : c = comma ∨ c = 0x5d ∨ c = 0x7d)
    (rest : List CodePoint) : EndsNumber (c :: rest) := by
  intro d hd
  obtain rfl : c = d := Option.some.inj hd
  obtain rfl | rfl | rfl := h <;> decide

section Digits

variable {n : Nat} {rest : List CodePoint}

theorem isDigit_of_mem_ofNat {c : CodePoint} (h : c ∈ (ofNat n).points) :
    Decimal.isDigit c = true := by
  have := val_of_mem_ofNat h
  simp only [Decimal.isDigit, Bool.and_eq_true, decide_eq_true_eq]
  exact this

theorem digits_ofNat (ends : EndsNumber rest) :
    digits ((ofNat n).points ++ rest) = ((ofNat n).points, rest) := by
  have stops : rest.takeWhile Decimal.isDigit = [] ∧ rest.dropWhile Decimal.isDigit = rest := by
    cases rest with
    | nil => exact ⟨rfl, rfl⟩
    | cons c rest =>
      have other := (ends c rfl).1
      simp [other]
  have all : ∀ c ∈ (ofNat n).points, Decimal.isDigit c = true := fun c => isDigit_of_mem_ofNat
  rw [digits, List.takeWhile_append_of_pos all, List.dropWhile_append_of_pos all, stops.1, stops.2,
    List.append_nil]

theorem value_ofNat (n : Nat) : Decimal.value (ofNat n).points = n := by
  rw [points_ofNat, Decimal.value, List.foldl_map]
  exact Nat.ofDigitChars_ten_toDigits

/-- Only zero is written with a zero in front. -/
theorem head_toDigits {n : Nat} (h : 0 < n) : (Nat.toDigits 10 n).head? ≠ some '0' := by
  induction n using Nat.strongRecOn with
  | ind n ih =>
    by_cases small : n < 10
    · rw [Nat.toDigits_of_lt_base small]
      intro zero
      have := Nat.digitChar_eq_zero.1 (Option.some.inj zero)
      omega
    · have split := Nat.toDigits_append_toDigits (b := 10) (n := n / 10) (d := n % 10) (by decide)
        (by omega) (by omega)
      rw [Nat.div_add_mod] at split
      rw [← split, List.head?_append_of_ne_nil _ Nat.toDigits_ne_nil]
      exact ih (n / 10) (by omega) (by omega)

/-- A number has digits, of which the first is no sign. -/
theorem exists_first_ofNat (n : Nat) :
    ∃ c points, (ofNat n).points = c :: points ∧ Decimal.isDigit c = true := by
  cases hp : (ofNat n).points with
  | nil =>
    rw [points_ofNat] at hp
    exact absurd (List.map_eq_nil_iff.1 hp) Nat.toDigits_ne_nil
  | cons c points => exact ⟨c, points, rfl, isDigit_of_mem_ofNat (hp ▸ List.mem_cons_self)⟩

theorem ne_of_isDigit {c d : CodePoint} (hc : Decimal.isDigit c = true)
    (hd : Decimal.isDigit d = false) : c ≠ d := by
  rintro rfl
  rw [hc] at hd
  cases hd

theorem wholePart?_ofNat (ends : EndsNumber rest) :
    wholePart? ((ofNat n).points ++ rest) = some ((ofNat n).points, rest) := by
  rcases Nat.eq_zero_or_pos n with rfl | positive
  · rfl
  · obtain ⟨c, points, hp, digit⟩ := exists_first_ofNat n
    have leading : c ≠ 0x30 := by
      rintro rfl
      rw [points_ofNat, List.map_eq_cons_iff] at hp
      obtain ⟨d, ds, hd, hc, -⟩ := hp
      obtain rfl : d = '0' := codePoint_injective hc
      exact head_toDigits positive (by rw [hd]; rfl)
    have read := digits_ofNat (n := n) ends
    rw [hp, List.cons_append] at read
    rw [hp, List.cons_append, wholePart?, if_neg leading, if_pos digit, read]

theorem number_ofNat (short : n < 10 ^ Decimal.digitLimit) (ends : EndsNumber rest) :
    number ((ofNat n).points ++ rest) = .ok (.int n, rest) := by
  have length : ¬ Decimal.digitLimit < (ofNat n).points.length := by
    rw [points_ofNat, List.length_map, Nat.not_lt]
    exact Nat.toDigits_length 10 n _ (by decide) short
  have noFraction : fraction rest = ([], rest) := by
    cases rest with
    | nil => rfl
    | cons c rest => exact if_neg fun h => (ends c rfl).2.1 h.1
  have noExponent : exponent rest = (none, rest) := by
    cases rest with
    | nil => rfl
    | cons c rest => exact if_neg fun h => h.1.elim (ends c rfl).2.2.1 (ends c rfl).2.2.2
  obtain ⟨c, points, hp, digit⟩ := exists_first_ofNat n
  have unsigned : c ≠ minus := ne_of_isDigit digit (by decide)
  have whole := wholePart?_ofNat (n := n) ends
  have sum := value_ofNat n
  rw [hp] at length whole sum ⊢
  rw [List.cons_append] at whole ⊢
  unfold number
  simp only [if_neg unsigned, whole, noFraction, noExponent, List.isEmpty_nil, Option.isNone_none,
    Bool.and_self, if_true, if_neg length, Bool.false_eq_true, if_false, sum]

end Digits

/-! ### Lists and objects -/

/-- A reader takes this text off the front as this item, wherever an item may end. -/
structure Spelled {α : Type} (read : Scan α) (a : α) (t : Text) : Prop where
  starts : ∃ c points, t.points = c :: points ∧ isBlank c = false ∧ c ≠ 0x5d ∧ c ≠ 0x7d
  reads : ∀ rest, EndsNumber rest → read (t.points ++ rest) = .ok (a, rest)

section Lists

variable {α : Type} {read : Scan α} {values : List α} {texts : List Text} {close : CodePoint}

theorem skip_cons {c : CodePoint} (h : isBlank c = false) (rest : List CodePoint) :
    skip (c :: rest) = c :: rest :=
  List.dropWhile_cons_of_neg (by simp [h])

theorem Spelled.skip_append {a : α} {t : Text} (h : Spelled read a t) (rest : List CodePoint) :
    skip (t.points ++ rest) = t.points ++ rest := by
  obtain ⟨c, points, hp, unblank, -⟩ := h.starts
  rw [hp, List.cons_append, skip_cons unblank]

theorem Spelled.length_pos {a : α} {t : Text} (h : Spelled read a t) : 0 < t.points.length := by
  obtain ⟨c, points, hp, -⟩ := h.starts
  simp [hp]

theorem intercalate_cons_cons (separator t u : Text) (texts : List Text) :
    (intercalate separator (t :: u :: texts)).points =
      t.points ++ separator.points ++ (intercalate separator (u :: texts)).points :=
  rfl

theorem points_comma : ("," : Text).points = [comma] :=
  rfl

theorem length_le_intercalate (h : List.Forall₂ (Spelled read) values texts) :
    values.length ≤ (intercalate "," texts).points.length := by
  induction h with
  | nil => exact Nat.zero_le _
  | @cons a t values texts first others ih =>
    have := first.length_pos
    cases others with
    | nil => exact this
    | cons =>
      rw [intercalate_cons_cons, List.length_append, List.length_append, List.length_cons]
      omega

theorem length_mem_intercalate {t : Text} {texts : List Text} (h : t ∈ texts) :
    t.points.length ≤ (intercalate "," texts).points.length := by
  induction texts with
  | nil => cases h
  | cons u texts ih =>
    cases texts with
    | nil =>
      obtain rfl := List.mem_singleton.1 h
      exact Nat.le_refl _
    | cons v texts =>
      rw [intercalate_cons_cons, List.length_append, List.length_append]
      obtain rfl | h := List.mem_cons.1 h
      · omega
      · have := ih h
        omega

theorem items_spelled (h : List.Forall₂ (Spelled read) values texts) (filled : values ≠ [])
    (closing : close = 0x5d ∨ close = 0x7d) {fuel : Nat} (enough : values.length ≤ fuel)
    (rest : List CodePoint) :
    items read close fuel ((intercalate "," texts).points ++ close :: rest) = .ok (values, rest) := by
  induction h generalizing fuel with
  | nil => exact absurd rfl filled
  | @cons a t values texts first others ih =>
    obtain ⟨fuel, rfl⟩ := Nat.exists_eq_succ_of_ne_zero (Nat.ne_zero_of_lt enough)
    cases others with
    | nil =>
      have unblank : isBlank close = false := by
        obtain rfl | rfl := closing <;> decide
      change items read close (fuel + 1) (t.points ++ close :: rest) = _
      rw [items, first.reads _ (endsNumber_cons (.inr closing) rest)]
      simp only [bind, Except.bind, skip_cons unblank, if_true]
      rfl
    | @cons b u values texts second others =>
      have separate : comma ≠ close := by
        obtain rfl | rfl := closing <;> decide
      have next : skip ((intercalate "," (u :: texts)).points ++ close :: rest) =
          (intercalate "," (u :: texts)).points ++ close :: rest := by
        cases texts with
        | nil => exact second.skip_append _
        | cons v texts =>
          rw [intercalate_cons_cons, List.append_assoc, List.append_assoc]
          exact second.skip_append _
      rw [intercalate_cons_cons, points_comma, List.append_assoc, List.append_assoc,
        List.singleton_append, items, first.reads _ (endsNumber_cons (.inl rfl) _)]
      simp only [bind, Except.bind, skip_cons (show isBlank comma = false by decide),
        if_neg separate, if_true, next]
      rw [ih (List.cons_ne_nil _ _) (Nat.le_of_succ_le_succ enough)]
      rfl

theorem enclosed_spelled (h : List.Forall₂ (Spelled read) values texts)
    (closing : close = 0x5d ∨ close = 0x7d) (rest : List CodePoint) :
    enclosed read close ((intercalate "," texts).points ++ close :: rest) = .ok (values, rest) := by
  cases h with
  | nil =>
    have unblank : isBlank close = false := by
      obtain rfl | rfl := closing <;> decide
    change enclosed read close (close :: rest) = _
    rw [enclosed, skip_cons unblank]
    exact if_pos rfl
  | @cons a t values texts first others =>
    have all : List.Forall₂ (Spelled read) (a :: values) (t :: texts) := .cons first others
    obtain ⟨c, points, hp, unblank, bracket, brace⟩ := first.starts
    have other : c ≠ close := by
      obtain rfl | rfl := closing
      · exact bracket
      · exact brace
    obtain ⟨tail, starts⟩ : ∃ tail, (intercalate "," (t :: texts)).points ++ close :: rest = c :: tail := by
      cases texts with
      | nil => exact ⟨points ++ close :: rest, by change t.points ++ _ = _; rw [hp]; rfl⟩
      | cons u texts =>
        rw [intercalate_cons_cons, hp]
        exact ⟨_, rfl⟩
    have enough : (a :: values).length ≤ (c :: tail).length + 1 := by
      have := length_le_intercalate all
      rw [← starts, List.length_append]
      omega
    have read := items_spelled all (List.cons_ne_nil _ _) closing enough rest
    rw [starts] at read ⊢
    rw [enclosed, skip_cons unblank]
    simp only [if_neg other]
    exact read

theorem repeated?_eq_none {seen keys : List Text} (distinct : keys.Nodup)
    (fresh : ∀ key ∈ keys, key ∉ seen) : repeated? seen keys = none := by
  induction keys generalizing seen with
  | nil => rfl
  | cons key keys ih =>
    obtain ⟨first, others⟩ := List.forall_mem_cons.1 fresh
    obtain ⟨absent, distinct⟩ := List.nodup_cons.1 distinct
    rw [repeated?, if_neg (by simpa using first)]
    apply ih distinct
    intro other ho
    rw [List.mem_cons, not_or]
    exact ⟨fun same => absent (same ▸ ho), others other ho⟩

theorem nodup_of_repeated? {seen keys : List Text} (h : repeated? seen keys = none) :
    keys.Nodup ∧ ∀ key ∈ keys, key ∉ seen := by
  induction keys generalizing seen with
  | nil => exact ⟨.nil, nofun⟩
  | cons key keys ih =>
    unfold repeated? at h
    split at h
    · cases h
    · next fresh =>
      obtain ⟨distinct, others⟩ := ih h
      have fresh : key ∉ seen := by simpa using fresh
      refine ⟨List.nodup_cons.2 ⟨fun again => others key again List.mem_cons_self, distinct⟩, ?_⟩
      exact List.forall_mem_cons.2 ⟨fresh, fun key' hk known =>
        others key' hk (List.mem_cons_of_mem _ known)⟩

end Lists

/-! ### Documents -/

/-- Documents of texts, natural numbers that are not too long, lists, and objects whose keys differ. -/
inductive Value.Exact : Value → Prop
  | text (t : Text) : Exact (.text t)
  | count {n : Nat} : n < 10 ^ Decimal.digitLimit → Exact (.int n)
  | array {items : List Value} : (∀ v ∈ items, Exact v) → Exact (.array items)
  | object {entries : List (Text × Value)} : (entries.map Prod.fst).Nodup →
    (∀ e ∈ entries, Exact e.2) → Exact (.object entries)

/-- An entry of an object as it is written. -/
def spelling (e : Text × Value) : Text := literal e.1 ++ ":" ++ e.2.compact

theorem compactItems_eq (items : List Value) : compactItems items = items.map compact := by
  induction items with
  | nil => rfl
  | cons v items ih => rw [compactItems, ih, List.map_cons]

theorem compactEntries_eq (entries : List (Text × Value)) :
    compactEntries entries = entries.map spelling := by
  induction entries with
  | nil => rfl
  | cons e entries ih =>
    obtain ⟨key, v⟩ := e
    rw [compactEntries, ih, List.map_cons]
    rfl

theorem points_literal (t : Text) :
    (literal t).points = doubleQuote :: (t.points.flatMap escape ++ [doubleQuote]) :=
  rfl

theorem points_array (items : List Value) : (Value.array items).compact.points =
    0x5b :: ((intercalate "," (items.map compact)).points ++ [0x5d]) := by
  rw [compact, compactItems_eq]
  rfl

theorem points_object (entries : List (Text × Value)) : (Value.object entries).compact.points =
    0x7b :: ((intercalate "," (entries.map spelling)).points ++ [0x7d]) := by
  rw [compact, compactEntries_eq]
  rfl

theorem spelled_spelling {read : Scan Value} {e : Text × Value}
    (h : Spelled read e.2 e.2.compact) : Spelled (entry read) e (spelling e) where
  starts := ⟨doubleQuote, _, rfl, by decide⟩
  reads rest ends := by
    have split : (spelling e).points ++ rest = doubleQuote :: (e.1.points.flatMap escape ++
        doubleQuote :: colon :: (e.2.compact.points ++ rest)) := by
      change doubleQuote :: (e.1.points.flatMap escape ++ [doubleQuote] ++ [colon] ++
        e.2.compact.points ++ rest) = _
      simp only [List.append_assoc, List.cons_append, List.nil_append]
    rw [split, entry, if_pos rfl, string_escaped]
    simp only [bind, Except.bind, skip_cons (show isBlank colon = false by decide), if_true,
      h.skip_append, h.reads rest ends]
    rfl

theorem word?_eq_none {c : CodePoint} (h : Decimal.isDigit c = true) (rest : List CodePoint) :
    word? (c :: rest) = none := by
  have different : ∀ row ∈ words, ∃ d points, row.1.points = d :: points ∧ Decimal.isDigit d = false := by
    simp only [words, List.forall_mem_cons]
    exact ⟨⟨_, _, rfl, by decide⟩, ⟨_, _, rfl, by decide⟩, ⟨_, _, rfl, by decide⟩,
      ⟨_, _, rfl, by decide⟩, ⟨_, _, rfl, by decide⟩, ⟨_, _, rfl, by decide⟩, List.forall_mem_nil _⟩
  have unfound : words.find? (fun row => row.1.points.isPrefixOf (c :: rest)) = none := by
    rw [List.find?_eq_none]
    intro row hr
    obtain ⟨d, points, hp, other⟩ := different row hr
    rw [hp, List.isPrefixOf_cons_cons]
    intro starts
    rw [Bool.and_eq_true, beq_iff_eq] at starts
    rw [starts.1, h] at other
    cases other
  unfold word?
  rw [unfound]
  rfl

theorem value_digit {c : CodePoint} (h : Decimal.isDigit c = true) (depth : Nat)
    (rest : List CodePoint) : value (depth + 1) (c :: rest) = number (c :: rest) := by
  rw [value, if_neg (ne_of_isDigit h (by decide)), if_neg (ne_of_isDigit h (by decide)),
    if_neg (ne_of_isDigit h (by decide)), word?_eq_none h]

theorem spelled_text (t : Text) (depth : Nat) :
    Spelled (value (depth + 1)) (.text t) (Value.text t).compact := by
  refine ⟨⟨doubleQuote, _, rfl, by decide⟩, fun rest _ => ?_⟩
  rw [compact, points_literal, List.cons_append, List.append_assoc, List.singleton_append, value,
    if_pos rfl, string_escaped]
  rfl

theorem isBlank_digit {c : CodePoint} (h : Decimal.isDigit c = true) : isBlank c = false := by
  simp only [isBlank, decide_eq_false (ne_of_isDigit h (show Decimal.isDigit 0x20 = false by decide)),
    decide_eq_false (ne_of_isDigit h (show Decimal.isDigit 0x09 = false by decide)),
    decide_eq_false (ne_of_isDigit h (show Decimal.isDigit 0x0a = false by decide)),
    decide_eq_false (ne_of_isDigit h (show Decimal.isDigit 0x0d = false by decide)), Bool.or_self]

theorem spelled_count {n : Nat} (short : n < 10 ^ Decimal.digitLimit) (depth : Nat) :
    Spelled (value (depth + 1)) (.int n) (ofNat n) := by
  obtain ⟨c, points, hp, digit⟩ := exists_first_ofNat n
  have other {d : CodePoint} (hd : Decimal.isDigit d = false) : c ≠ d := ne_of_isDigit digit hd
  refine ⟨⟨c, points, hp, isBlank_digit digit, other (by decide), other (by decide)⟩, fun rest ends => ?_⟩
  rw [hp, List.cons_append, value_digit digit, ← List.cons_append, ← hp]
  exact number_ofNat short ends

theorem spelled_array {depth : Nat} {items : List Value}
    (h : List.Forall₂ (Spelled (value depth)) items (items.map compact)) :
    Spelled (value (depth + 1)) (.array items) (Value.array items).compact := by
  refine ⟨⟨0x5b, _, points_array items, by decide⟩, fun rest _ => ?_⟩
  rw [points_array, List.cons_append, List.append_assoc, List.singleton_append, value,
    if_neg (by decide), if_neg (by decide), if_pos rfl, enclosed_spelled h (.inl rfl)]
  rfl

theorem spelled_object {depth : Nat} {entries : List (Text × Value)}
    (distinct : (entries.map Prod.fst).Nodup)
    (h : List.Forall₂ (Spelled (entry (value depth))) entries (entries.map spelling)) :
    Spelled (value (depth + 1)) (.object entries) (Value.object entries).compact := by
  refine ⟨⟨0x7b, _, points_object entries, by decide⟩, fun rest _ => ?_⟩
  rw [points_object, List.cons_append, List.append_assoc, List.singleton_append, value,
    if_neg (by decide), if_pos rfl, object, enclosed_spelled h (.inr rfl)]
  simp only [bind, Except.bind, repeated?_eq_none distinct fun _ _ => List.not_mem_nil]
  rfl

theorem length_compact_pos {v : Value} (exact : v.Exact) : 0 < v.compact.points.length := by
  cases exact with
  | text t => rw [compact, points_literal]; exact Nat.succ_pos _
  | @count n _ =>
    obtain ⟨c, points, hp, -⟩ := exists_first_ofNat n
    change 0 < (ofNat n).points.length
    rw [hp]
    exact Nat.succ_pos _
  | array => rw [points_array]; exact Nat.succ_pos _
  | object => rw [points_object]; exact Nat.succ_pos _

/-- A document is read as it was written, with as much depth as it is long.  What it holds is shorter. -/
theorem spelled_compact {v : Value} (exact : v.Exact) {depth : Nat}
    (h : v.compact.points.length ≤ depth) : Spelled (value depth) v v.compact := by
  induction depth generalizing v with
  | zero => exact absurd (length_compact_pos exact) (Nat.not_lt.2 h)
  | succ depth ih =>
    cases exact with
    | text t => exact spelled_text t depth
    | @count n short => exact spelled_count short depth
    | @array items each =>
      rw [points_array, List.length_cons, List.length_append] at h
      refine spelled_array (forall₂_map_self fun v hv => ih (each v hv) ?_)
      have part := length_mem_intercalate (List.mem_map_of_mem (f := compact) hv)
      omega
    | @object entries distinct each =>
      rw [points_object, List.length_cons, List.length_append] at h
      refine spelled_object distinct (forall₂_map_self fun e he => spelled_spelling (ih (each e he) ?_))
      have whole := length_mem_intercalate (List.mem_map_of_mem (f := spelling) he)
      have part : e.2.compact.points.length ≤ (spelling e).points.length := by
        rw [spelling, points_append, List.length_append]
        omega
      omega

theorem parse_compact {v : Value} (exact : v.Exact) : parse v.compact = .ok v := by
  have spelled := spelled_compact exact (Nat.le_succ v.compact.points.length)
  have read := spelled.reads [] nofun
  have skipped := spelled.skip_append []
  rw [List.append_nil] at read skipped
  have first : v.compact.points.head? ≠ some 0xfeff := by
    cases exact with
    | text t => nofun
    | @count n _ =>
      intro mark
      have digit := isDigit_of_mem_ofNat (n := n) (List.mem_of_head? mark)
      revert digit
      decide
    | array | object => rw [compact]; nofun
  unfold parse document
  rw [if_neg first, skipped, read]
  rfl

/-! ### Strict texts -/

theorem val_hexDigit_lt (n : Nat) : (hexDigit n).val < 0x80 := by
  unfold hexDigit
  split <;> dsimp only <;> omega

theorem eq_or_lt_of_mem_escape {c d : CodePoint} (h : d ∈ escape c) : d = c ∨ d.val < 0x80 := by
  have letters : letterEscapes.all (·.2.val < 0x80) = true := by
    decide
  simp only [List.all_eq_true, decide_eq_true_eq] at letters
  have first : backslash.val < 0x80 := by
    decide
  unfold escape at h
  split at h
  · rw [List.mem_pair] at h
    exact h.symm.imp id fun (same : d = backslash) => same ▸ first
  · split at h
    · split at h
      · next letter found =>
        rw [List.mem_pair] at h
        obtain rfl | rfl := h
        · exact .inr first
        · exact .inr (letters _ (List.mem_of_find?_eq_some found))
      · right
        rw [List.mem_append, List.mem_pair] at h
        obtain (rfl | rfl) | h := h
        · exact first
        · decide
        · simp only [hexDigits, List.nil_append, List.cons_append, List.mem_cons,
            List.not_mem_nil, or_false] at h
          obtain rfl | rfl | rfl | rfl := h <;> exact val_hexDigit_lt _
    · exact .inl (List.mem_singleton.1 h)

theorem isStrict_literal {t : Text} (h : t.IsStrict) : (literal t).IsStrict := by
  have quote : isSurrogate doubleQuote = false := by
    decide
  rw [isStrict_iff] at h ⊢
  simp only [points_literal, List.forall_mem_cons, List.forall_mem_append, List.mem_flatMap,
    forall_exists_index, and_imp]
  refine ⟨quote, fun d c hc hd => ?_, quote, List.forall_mem_nil _⟩
  obtain rfl | ascii := eq_or_lt_of_mem_escape hd
  · exact h d hc
  · exact isSurrogate_of_lt ascii

/-- Documents whose texts are all strict. -/
inductive Value.Strict : Value → Prop
  | text {t : Text} : t.IsStrict → Strict (.text t)
  | count (n : Nat) : Strict (.int n)
  | array {items : List Value} : (∀ v ∈ items, Strict v) → Strict (.array items)
  | object {entries : List (Text × Value)} : (∀ e ∈ entries, e.1.IsStrict) →
    (∀ e ∈ entries, Strict e.2) → Strict (.object entries)

theorem isStrict_compact {v : Value} (h : v.Strict) : v.compact.IsStrict := by
  induction h with
  | text strict => exact isStrict_literal strict
  | count n => exact isStrict_of_isAscii (isAscii_ofNat n)
  | @array items _ ih =>
    rw [compact, compactItems_eq]
    refine .append (.append (by decide) (isStrict_intercalate (by decide) ?_)) (by decide)
    simpa only [List.forall_mem_map] using ih
  | @object entries keys _ ih =>
    rw [compact, compactEntries_eq]
    refine .append (.append (by decide) (isStrict_intercalate (by decide) ?_)) (by decide)
    simp only [List.forall_mem_map]
    exact fun e he => .append (.append (isStrict_literal (keys e he)) (by decide)) (ih e he)

end Checkpoint.Json
