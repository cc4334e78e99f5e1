import Checkpoint.Text.CodePage437
import Checkpoint.Text.Utf8
import Mathlib.Data.List.Basic
import Mathlib.Data.Nat.Digits.Defs

/-! Texts are read as they were written. -/

namespace Checkpoint.Text

theorem continuation?_of_lt {n : Nat} (h : n < 64) :
    continuation? (UInt8.ofNat (0x80 + n)) = some n := by
  have : (UInt8.ofNat (0x80 + n)).toNat = 0x80 + n := by
    rw [UInt8.toNat_ofNat']
    omega
  unfold continuation?
  rw [this, if_pos (by omega)]
  simp

theorem pointFrom?_eq {least n : Nat} {c : CodePoint} (hn : n = c.val) (h : least ≤ n) :
    pointFrom? least n = some c := by
  subst hn
  exact dif_pos ⟨h, c.isLt⟩

section Lead

variable {a b d e : UInt8} {y z u : Nat} {c : CodePoint} {rest : Bytes}

theorem utf8Next?_one (ha : a.toNat < 0x80) (hp : pointFrom? 0 a.toNat = some c) :
    utf8Next? (a :: rest) = some (c, rest) := by
  simp only [utf8Next?, if_pos ha, hp, Option.map_some]

theorem utf8Next?_two (low : 0xc0 ≤ a.toNat) (high : a.toNat < 0xe0) (hb : continuation? b = some y)
    (hp : pointFrom? 0x80 ((a.toNat - 0xc0) * 64 + y) = some c) :
    utf8Next? (a :: b :: rest) = some (c, rest) := by
  simp only [utf8Next?, hb, Option.bind_eq_bind, Option.bind_some, hp]
  rw [if_neg (by omega), if_neg (by omega), if_pos high]
  rfl

theorem utf8Next?_three (low : 0xe0 ≤ a.toNat) (high : a.toNat < 0xf0)
    (hb : continuation? b = some y) (hd : continuation? d = some z)
    (hp : pointFrom? 0x800 ((a.toNat - 0xe0) * 4096 + y * 64 + z) = some c) :
    utf8Next? (a :: b :: d :: rest) = some (c, rest) := by
  simp only [utf8Next?, hb, hd, Option.bind_eq_bind, Option.bind_some, hp]
  rw [if_neg (by omega), if_neg (by omega), if_neg (by omega), if_pos high]
  rfl

theorem utf8Next?_four (low : 0xf0 ≤ a.toNat) (high : a.toNat < 0xf8)
    (hb : continuation? b = some y) (hd : continuation? d = some z) (he : continuation? e = some u)
    (hp : pointFrom? 0x10000 ((a.toNat - 0xf0) * 262144 + y * 4096 + z * 64 + u) = some c) :
    utf8Next? (a :: b :: d :: e :: rest) = some (c, rest) := by
  simp only [utf8Next?, hb, hd, he, Option.bind_eq_bind]
  -- Simplifying with the law of bind here has the kernel compare with 65536 in unary.
  rw [if_neg (by omega), if_neg (by omega), if_neg (by omega), if_neg (by omega), if_pos high,
    Option.bind_some, Option.bind_some, Option.bind_some, hp, Option.bind_some]
  rfl

end Lead

theorem utf8Next?_utf8Point (c : CodePoint) (rest : Bytes) :
    utf8Next? (utf8Point c ++ rest) = some (c, rest) := by
  have hc := c.isLt
  have lead {k : Nat} (h : k < 256) : (UInt8.ofNat k).toNat = k := by
    rw [UInt8.toNat_ofNat']
    omega
  unfold utf8Point
  dsimp only
  split
  · have ha := lead (k := c.val) (by omega)
    exact utf8Next?_one (by omega) (pointFrom?_eq ha (by omega))
  · split
    · have ha := lead (k := 0xc0 + c.val / 64) (by omega)
      exact utf8Next?_two (by omega) (by omega) (continuation?_of_lt (by omega))
        (pointFrom?_eq (by omega) (by omega))
    · split
      · have ha := lead (k := 0xe0 + c.val / 4096) (by omega)
        exact utf8Next?_three (by omega) (by omega) (continuation?_of_lt (by omega))
          (continuation?_of_lt (by omega)) (pointFrom?_eq (by omega) (by omega))
      · have ha := lead (k := 0xf0 + c.val / 262144) (by omega)
        exact utf8Next?_four (by omega) (by omega) (continuation?_of_lt (by omega))
          (continuation?_of_lt (by omega)) (continuation?_of_lt (by omega))
          (pointFrom?_eq (by omega) (by omega))

theorem decodePoints?_flatMap (points : List CodePoint) :
    decodePoints? (points.flatMap utf8Point) = some points := by
  induction points with
  | nil => rw [List.flatMap_nil, decodePoints?]
  | cons c points ih =>
    have next := utf8Next?_utf8Point c (points.flatMap utf8Point)
    rw [List.flatMap_cons]
    cases hb : utf8Point c ++ points.flatMap utf8Point with
    | nil =>
      rw [hb] at next
      cases next
    | cons b rest =>
      rw [hb] at next
      rw [decodePoints?]
      split
      · simp_all
      · next heq =>
        rw [next] at heq
        cases heq
        rw [ih]
        rfl

theorem ofUtf8?_utf8 (t : Text) : ofUtf8? t.utf8 = some t := by
  rw [ofUtf8?, utf8, decodePoints?_flatMap]
  rfl

/-- Whether a text has a strict form. -/
def IsStrict (t : Text) : Prop := t.points.any isSurrogate = false

instance (t : Text) : Decidable t.IsStrict :=
  inferInstanceAs (Decidable (_ = false))

theorem strictUtf8?_eq {t : Text} (h : t.IsStrict) : t.strictUtf8? = some t.utf8 := by
  rw [strictUtf8?, h]
  rfl

theorem ofStrictUtf8?_utf8 {t : Text} (h : t.IsStrict) : ofStrictUtf8? t.utf8 = some t := by
  rw [ofStrictUtf8?, utf8, decodePoints?_flatMap]
  simp only [Option.bind_eq_bind, Option.bind_some]
  rw [h]
  rfl

theorem eq_of_strictUtf8? {t : Text} {bytes : Bytes} (h : t.strictUtf8? = some bytes) :
    t.IsStrict ∧ bytes = t.utf8 := by
  unfold strictUtf8? at h
  split at h
  · cases h
  · next strict => exact ⟨Bool.eq_false_iff.2 strict, (Option.some.inj h).symm⟩

theorem isStrict_iff {t : Text} : t.IsStrict ↔ ∀ c ∈ t.points, isSurrogate c = false := by
  rw [IsStrict, List.any_eq_false]
  simp only [Bool.not_eq_true]

theorem IsStrict.append {a b : Text} (ha : a.IsStrict) (hb : b.IsStrict) : (a ++ b).IsStrict := by
  rw [isStrict_iff] at *
  rw [points_append]
  exact List.forall_mem_append.2 ⟨ha, hb⟩

theorem isStrict_intercalate {separator : Text} {texts : List Text} (hs : separator.IsStrict)
    (h : ∀ t ∈ texts, t.IsStrict) : (intercalate separator texts).IsStrict := by
  induction texts with
  | nil => rfl
  | cons t texts ih =>
    obtain ⟨first, others⟩ := List.forall_mem_cons.1 h
    cases texts with
    | nil => exact first
    | cons u texts => exact .append (.append first hs) (ih others)

theorem isSurrogate_of_lt {c : CodePoint} (h : c.val < 0x80) : isSurrogate c = false := by
  simp only [isSurrogate, Bool.and_eq_false_iff, decide_eq_false_iff_not]
  omega

theorem isStrict_of_isAscii {t : Text} (h : t.isAscii = true) : t.IsStrict := by
  simp only [isAscii, List.all_eq_true, decide_eq_true_eq] at h
  exact isStrict_iff.2 fun c hc => isSurrogate_of_lt (h c hc)

/-- The length of a code point's form is told by its number. -/
theorem length_utf8Point (c : CodePoint) : (utf8Point c).length =
    if c.val < 0x80 then 1 else if c.val < 0x800 then 2 else if c.val < 0x10000 then 3 else 4 := by
  unfold utf8Point
  dsimp only
  split_ifs <;> rfl

theorem continuation?_lt {b : UInt8} {y : Nat} (h : continuation? b = some y) : y < 64 := by
  unfold continuation? at h
  split at h
  · have := Option.some.inj h
    omega
  · cases h

theorem val_of_pointFrom? {least n : Nat} {c : CodePoint} (h : pointFrom? least n = some c) :
    c.val = n := by
  unfold pointFrom? at h
  split at h <;> cases h
  rfl

/-- No code point is read from fewer bytes than it is written as. -/
theorem length_of_utf8Next? {bytes rest : Bytes} {c : CodePoint} (h : utf8Next? bytes = some (c, rest)) :
    (utf8Point c).length + rest.length ≤ bytes.length := by
  rw [length_utf8Point]
  unfold utf8Next? at h
  repeat' split at h
  all_goals simp only [Option.map_eq_some_iff, Option.bind_eq_bind, Option.bind_eq_some_iff,
    Option.pure_def, Option.some.injEq, Prod.mk.injEq, reduceCtorEq] at h
  · obtain ⟨c, hc, rfl, rfl⟩ := h
    have point := val_of_pointFrom? hc
    rw [if_pos (by omega), List.length_cons]
    omega
  · obtain ⟨y, hy, c, hc, rfl, rfl⟩ := h
    have point := val_of_pointFrom? hc
    have := continuation?_lt hy
    simp only [List.length_cons]
    split_ifs <;> omega
  · obtain ⟨y, hy, z, hz, c, hc, rfl, rfl⟩ := h
    have point := val_of_pointFrom? hc
    have := continuation?_lt hy
    have := continuation?_lt hz
    simp only [List.length_cons]
    split_ifs <;> omega
  · obtain ⟨_, _, _, _, _, _, c, hc, rfl, rfl⟩ := h
    simp only [List.length_cons]
    split_ifs <;> omega

theorem length_utf8_of_decodePoints? {bytes : Bytes} {points : List CodePoint}
    (h : decodePoints? bytes = some points) : (points.flatMap utf8Point).length ≤ bytes.length := by
  fun_induction decodePoints? bytes generalizing points with
  | case1 =>
    cases h
    exact Nat.zero_le _
  | case2 => cases h
  | case3 b rest c tail next ih =>
    rw [Option.map_eq_some_iff] at h
    obtain ⟨others, decoded, rfl⟩ := h
    have first := length_of_utf8Next? next
    have := ih decoded
    rw [List.flatMap_cons, List.length_append]
    omega

/-- A text is not written as more bytes than it is read from. -/
theorem length_utf8_of_ofStrictUtf8? {bytes : Bytes} {t : Text} (h : ofStrictUtf8? bytes = some t) :
    t.utf8.length ≤ bytes.length := by
  rw [ofStrictUtf8?, Option.bind_eq_bind, Option.bind_eq_some_iff] at h
  obtain ⟨points, decoded, h⟩ := h
  split at h
  · cases h
  · cases h
    exact length_utf8_of_decodePoints? decoded

section Length

variable (t : Text)

/-- Every code point takes a byte at least. -/
theorem length_le_utf8 : t.length ≤ t.utf8.length := by
  obtain ⟨points⟩ := t
  change points.length ≤ (points.flatMap utf8Point).length
  induction points with
  | nil => exact Nat.le_refl _
  | cons c points ih =>
    rw [List.flatMap_cons, List.length_append, List.length_cons, length_utf8Point]
    split_ifs <;> omega

/-- No code point takes more than four bytes. -/
theorem length_utf8_le : t.utf8.length ≤ 4 * t.length := by
  obtain ⟨points⟩ := t
  change (points.flatMap utf8Point).length ≤ 4 * points.length
  induction points with
  | nil => exact Nat.le_refl _
  | cons c points ih =>
    rw [List.flatMap_cons, List.length_append, List.length_cons, length_utf8Point]
    split_ifs <;> omega

end Length

theorem utf8_of_ascii {t : Text} (h : t.isAscii = true) :
    t.utf8 = t.points.map fun c => UInt8.ofNat c.val := by
  obtain ⟨points⟩ := t
  simp only [isAscii, List.all_eq_true, decide_eq_true_eq] at h
  change points.flatMap utf8Point = _
  induction points with
  | nil => rfl
  | cons c points ih =>
    rw [List.flatMap_cons, ih fun c hc => h c (List.mem_cons_of_mem _ hc), utf8Point]
    simp only [h c List.mem_cons_self, if_true]
    rfl

theorem ofByte_ofNat {c : CodePoint} (h : c.val < 0x80) : CodePoint.ofByte (UInt8.ofNat c.val) = c := by
  apply Fin.ext
  change (UInt8.ofNat c.val).toNat = c.val
  rw [UInt8.toNat_ofNat']
  omega

theorem toNat_ofNat_of_ascii {c : CodePoint} (h : c.val < 0x80) :
    (UInt8.ofNat c.val).toNat < 0x80 := by
  rw [UInt8.toNat_ofNat']
  omega

theorem map_ofByte_utf8 {t : Text} (h : t.isAscii = true) :
    t.utf8.map CodePoint.ofByte = t.points := by
  rw [utf8_of_ascii h, List.map_map]
  simp only [isAscii, List.all_eq_true, decide_eq_true_eq] at h
  conv_rhs => rw [← List.map_id t.points]
  exact List.map_congr_left fun c hc => ofByte_ofNat (h c hc)

theorem all_utf8_of_ascii {t : Text} (h : t.isAscii = true) :
    ∀ b ∈ t.utf8, b.toNat < 0x80 := by
  rw [utf8_of_ascii h]
  simp only [isAscii, List.all_eq_true, decide_eq_true_eq] at h
  simp only [List.forall_mem_map]
  intro c hc
  exact toNat_ofNat_of_ascii (h c hc)

theorem ofAscii?_utf8 {t : Text} (h : t.isAscii = true) : ofAscii? t.utf8 = some t := by
  have all : t.utf8.all (·.toNat < 0x80) = true := by
    simpa only [List.all_eq_true, decide_eq_true_eq] using all_utf8_of_ascii h
  rw [ofAscii?, if_pos all, map_ofByte_utf8 h]

theorem ofCodePage437_utf8 {t : Text} (h : t.isAscii = true) : ofCodePage437 t.utf8 = t := by
  apply ext_points
  rw [← map_ofByte_utf8 h, ofCodePage437]
  apply List.map_congr_left
  intro b hb
  exact if_pos (all_utf8_of_ascii h b hb)

theorem codePoint_injective {c d : Char} (h : codePoint c = codePoint d) : c = d := by
  apply Char.ext
  apply UInt32.toNat_inj.1
  exact congrArg (fun p : CodePoint => p.val) h

theorem points_ofNat (n : Nat) : (ofNat n).points = (Nat.toDigits 10 n).map codePoint := by
  rw [ofNat, ofString, Nat.toString_eq_repr, Nat.toList_repr]

theorem ofNat_injective {m n : Nat} (h : ofNat m = ofNat n) : m = n := by
  have digits : Nat.toDigits 10 m = Nat.toDigits 10 n := by
    apply List.map_injective_iff.2 (fun _ _ => codePoint_injective)
    rw [← points_ofNat, ← points_ofNat, h]
  rw [← Nat.ofDigitChars_ten_toDigits (n := m), digits, Nat.ofDigitChars_ten_toDigits]

theorem val_of_mem_ofNat {n : Nat} {c : CodePoint} (h : c ∈ (ofNat n).points) :
    0x30 ≤ c.val ∧ c.val ≤ 0x39 := by
  rw [points_ofNat, List.mem_map] at h
  obtain ⟨d, hd, rfl⟩ := h
  have := Nat.isDigit_of_mem_toDigits (by decide) (by decide) hd
  simp only [Char.isDigit, Bool.and_eq_true, decide_eq_true_eq] at this
  exact this

theorem isAscii_ofNat (n : Nat) : (ofNat n).isAscii = true := by
  unfold isAscii
  rw [List.all_eq_true]
  intro c hc
  have := val_of_mem_ofNat hc
  simp
  omega

/-- A number has at most so many digits as the exponent of a power of ten above it. -/
theorem length_utf8_ofNat {n k : Nat} (hk : 0 < k) (h : n < 10 ^ k) : (ofNat n).utf8.length ≤ k := by
  rw [utf8_of_ascii (isAscii_ofNat n), List.length_map, points_ofNat, List.length_map]
  exact Nat.toDigits_length 10 n k hk h

end Checkpoint.Text
