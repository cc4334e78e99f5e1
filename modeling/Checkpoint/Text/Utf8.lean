import Checkpoint.Text
import Checkpoint.Bytes
/-!
UTF-8.  The strict form refuses surrogates on both sides; the lenient form writes a surrogate like
any other three-byte code point, so that every text has bytes.
-/

namespace Checkpoint.Text

def isSurrogate (c : CodePoint) : Bool :=
  0xd800 ≤ c.val && c.val ≤ 0xdfff

/-- One to four bytes: the lead byte gives the length, six bits follow in each further byte. -/
def utf8Point (c : CodePoint) : Bytes :=
  let n := c.val
  if n < 0x80 then [UInt8.ofNat n]
  else if n < 0x800 then [UInt8.ofNat (0xc0 + n / 64), UInt8.ofNat (0x80 + n % 64)]
  else if n < 0x10000 then
    [UInt8.ofNat (0xe0 + n / 4096), UInt8.ofNat (0x80 + n / 64 % 64), UInt8.ofNat (0x80 + n % 64)]
  else
    [UInt8.ofNat (0xf0 + n / 262144), UInt8.ofNat (0x80 + n / 4096 % 64),
      UInt8.ofNat (0x80 + n / 64 % 64), UInt8.ofNat (0x80 + n % 64)]

/-- The lenient form, which every text has. -/
def utf8 (t : Text) : Bytes := t.points.flatMap utf8Point

/-- The strict form, which a text with a surrogate lacks. -/
def strictUtf8? (t : Text) : Option Bytes :=
  if t.points.any isSurrogate then none else some t.utf8

/-- The six payload bits of a continuation byte. -/
def continuation? (b : UInt8) : Option Nat :=
  if 0x80 ≤ b.toNat ∧ b.toNat < 0xc0 then some (b.toNat - 0x80) else none

/-- A code point from `n`, refused below `least`: every code point has its shortest form only. -/
def pointFrom? (least n : Nat) : Option CodePoint :=
  if h : least ≤ n ∧ n < 0x110000 then some ⟨n, h.2⟩ else none

/-- Reads one code point off the front, and says what is left. -/
def utf8Next? : Bytes → Option (CodePoint × Bytes)
  | [] => none
  | a :: rest =>
    if a.toNat < 0x80 then (pointFrom? 0 a.toNat).map (·, rest)
    else if a.toNat < 0xc0 then none
    else if a.toNat < 0xe0 then
      match rest with
      | b :: rest => do
        let y ← continuation? b
        let c ← pointFrom? 0x80 ((a.toNat - 0xc0) * 64 + y)
        return (c, rest)
      | _ => none
    else if a.toNat < 0xf0 then
      match rest with
      | b :: d :: rest => do
        let y ← continuation? b
        let z ← continuation? d
        let c ← pointFrom? 0x800 ((a.toNat - 0xe0) * 4096 + y * 64 + z)
        return (c, rest)
      | _ => none
    else if a.toNat < 0xf8 then
      match rest with
      | b :: d :: e :: rest => do
        let y ← continuation? b
        let z ← continuation? d
        let w ← continuation? e
        let c ← pointFrom? 0x10000 ((a.toNat - 0xf0) * 262144 + y * 4096 + z * 64 + w)
        return (c, rest)
      | _ => none
    else none

theorem utf8Next?_shorter {bytes rest : Bytes} {c : CodePoint}
    (h : utf8Next? bytes = some (c, rest)) : rest.length < bytes.length := by
  unfold utf8Next? at h
  repeat' split at h
  all_goals simp only [Option.map_eq_some_iff, Option.bind_eq_bind, Option.bind_eq_some_iff,
    Option.pure_def, Option.some.injEq, Prod.mk.injEq, reduceCtorEq] at h
  · obtain ⟨_, _, _, rfl⟩ := h; simp
  · obtain ⟨_, _, _, _, _, rfl⟩ := h; simp only [List.length_cons]; omega
  · obtain ⟨_, _, _, _, _, _, _, rfl⟩ := h; simp only [List.length_cons]; omega
  · obtain ⟨_, _, _, _, _, _, _, _, _, rfl⟩ := h; simp only [List.length_cons]; omega

def decodePoints? (bytes : Bytes) : Option (List CodePoint) :=
  match bytes with
  | [] => some []
  | b :: rest =>
    match _h : utf8Next? (b :: rest) with
    | none => none
    | some (c, tail) => (decodePoints? tail).map (c :: ·)
termination_by bytes.length
decreasing_by exact utf8Next?_shorter ‹_›

/-- Reads the lenient form. -/
def ofUtf8? (bytes : Bytes) : Option Text :=
  (decodePoints? bytes).map Text.mk

/-- Reads the strict form. -/
def ofStrictUtf8? (bytes : Bytes) : Option Text := do
  let points ← decodePoints? bytes
  if points.any isSurrogate then none else some ⟨points⟩

/-- Reads ASCII; any other byte is refused. -/
def ofAscii? (bytes : Bytes) : Option Text :=
  if bytes.all (·.toNat < 0x80) then
    some ⟨bytes.map .ofByte⟩
  else none

/-- Reads ASCII with every other byte as the replacement character. -/
def ofAsciiReplacing (bytes : Bytes) : Text :=
  ⟨bytes.map fun b => if b.toNat < 0x80 then .ofByte b else 0xfffd⟩

def isAscii (t : Text) : Bool := t.points.all (·.val < 0x80)

end Checkpoint.Text
