/-!
Binary floating-point formats: a sign bit, an exponent field and a fraction field.  Words are
decoded to exact values and exact ratios are rounded to the nearest word, ties to the even one, in
`Nat` arithmetic throughout.
-/

namespace Checkpoint.Binary

/-- What the words at the top of a format's range stand for. -/
inductive Specials
  /-- The largest exponent field holds infinity and the NaNs. -/
  | infinite
  /-- Only the word with all bits of exponent and fraction set is special: a NaN. -/
  | topNaN
  /-- Only the negative zero is special: the one NaN. -/
  | negativeZeroNaN
  deriving DecidableEq, Repr

/-- How a format writes a NaN. -/
inductive NaNForm
  /-- With its sign and the upper bits of its payload. -/
  | payload
  /-- With its sign, and with all other bits set. -/
  | ones
  /-- As one word for all. -/
  | fixed
  deriving DecidableEq, Repr

structure Format where
  exponentBits : Nat
  fractionBits : Nat
  bias : Nat := Nat.pow 2 (exponentBits - 1) - 1
  specials : Specials := .infinite
  nanForm : NaNForm := .payload
  deriving DecidableEq, Repr

/-- The value of a word: a NaN, an infinity, or `± significand * 2 ^ exponent`.  A NaN has 52 bits
of payload, of which the highest says that it is quiet. -/
inductive Number
  | nan (negative : Bool) (payload : Nat)
  | infinity (negative : Bool)
  | finite (negative : Bool) (significand : Nat) (exponent : Int)
  deriving DecidableEq, Repr

namespace Format

def double : Format := { exponentBits := 11, fractionBits := 52 }
def single : Format := { exponentBits := 8, fractionBits := 23 }
def half : Format := { exponentBits := 5, fractionBits := 10 }
def brain : Format := { exponentBits := 8, fractionBits := 7, nanForm := .fixed }
def e4m3fn : Format :=
  { exponentBits := 4, fractionBits := 3, specials := .topNaN, nanForm := .ones }
def e5m2 : Format := { exponentBits := 5, fractionBits := 2, nanForm := .ones }
def e4m3fnuz : Format :=
  { exponentBits := 4, fractionBits := 3, bias := 8, specials := .negativeZeroNaN, nanForm := .fixed }
def e5m2fnuz : Format :=
  { exponentBits := 5, fractionBits := 2, bias := 16, specials := .negativeZeroNaN,
    nanForm := .fixed }

/-- The word of the sign bit alone. -/
def signBit (f : Format) : Nat := Nat.pow 2 (f.exponentBits + f.fractionBits)

/-- The exponent of the last place of the smallest numbers. -/
def leastExponent (f : Format) : Int := 1 - (f.bias : Int) - f.fractionBits

/-- The first magnitude past the finite ones. -/
def limit (f : Format) : Nat :=
  match f.specials with
  | .infinite => (Nat.pow 2 f.exponentBits - 1) * Nat.pow 2 f.fractionBits
  | .topNaN => f.signBit - 1
  | .negativeZeroNaN => f.signBit

/-- The bits of a NaN's payload. -/
def payloadBits : Nat := 52

/-- A NaN, with the quiet bit and no payload where there is a choice. -/
def quietNaN (f : Format) : Nat :=
  match f.specials with
  | .infinite => f.limit + Nat.pow 2 (f.fractionBits - 1)
  | .topNaN => f.signBit - 1
  | .negativeZeroNaN => f.signBit

def decode (f : Format) (word : Nat) : Number :=
  let negative := word / f.signBit % 2 = 1
  let magnitude := word % f.signBit
  let field := magnitude / Nat.pow 2 f.fractionBits
  let fraction := magnitude % Nat.pow 2 f.fractionBits
  if f.specials = .negativeZeroNaN ∧ negative ∧ magnitude = 0 then
    .nan false (Nat.pow 2 (payloadBits - single.fractionBits))
  else if magnitude < f.limit then
    if field = 0 then .finite negative fraction f.leastExponent
    else 
      .finite negative (Nat.pow 2 f.fractionBits + fraction) (f.leastExponent + (field - 1 : Nat))
  else if f.specials = .infinite ∧ fraction = 0 then .infinity negative
  else .nan negative (fraction * Nat.pow 2 (payloadBits - f.fractionBits))

/-- The quotient nearest to `n / d`; a tie goes to the even one. -/
def roundQuotient (n d : Nat) : Nat :=
  let q := n / d
  let r := n % d
  if 2 * r < d then q else if d < 2 * r then q + 1 else q + q % 2

/-- The greatest `e` with `2 ^ e ≤ n / d`, for positive `n` and `d`. -/
def floorLog2 (n d : Nat) : Int :=
  let e : Int := (n.log2 : Int) - d.log2
  if d * Nat.pow 2 e.toNat ≤ n * Nat.pow 2 (-e).toNat then e else e - 1

/-- The word without its sign that is nearest to `n / d`, with the exponent range unbounded above:
the significand has `fractionBits + 1` digits, fewer at the bottom of the range. -/
def nearestMagnitude (f : Format) (n d : Nat) : Nat :=
  if n = 0 then 0
  else
    let place := max (floorLog2 n d - f.fractionBits) f.leastExponent
    let significand := 
      roundQuotient (n * Nat.pow 2 (-place).toNat) (d * Nat.pow 2 place.toNat)
    (place - f.leastExponent).toNat * Nat.pow 2 f.fractionBits + significand

def withSign (f : Format) (negative : Bool) (magnitude : Nat) : Nat :=
  if negative then f.signBit + magnitude else magnitude

/-- The word for what is past the finite range: infinity, or else the greatest number, or a NaN where
the format has a single one. -/
def overflow (f : Format) (negative : Bool) : Nat :=
  match f.specials with
  | .infinite => f.withSign negative f.limit
  | .topNaN => f.withSign negative (f.limit - 1)
  | .negativeZeroNaN => f.quietNaN

/-- The word nearest to `± n / d`. -/
def round (f : Format) (negative : Bool) (n d : Nat) : Nat :=
  let magnitude := f.nearestMagnitude n d
  if f.limit ≤ magnitude then f.overflow negative
  else if f.specials = .negativeZeroNaN ∧ magnitude = 0 then 0
  else f.withSign negative magnitude

def encodeNaN (f : Format) (negative : Bool) (payload : Nat) : Nat :=
  match f.nanForm with
  | .payload => f.withSign negative (f.limit + payload / Nat.pow 2 (payloadBits - f.fractionBits))
  | .ones => f.withSign negative (f.signBit - 1)
  | .fixed => f.quietNaN

/-- The nearest word to a number of another format. -/
def encode (f : Format) : Number → Nat
  | .nan negative payload => f.encodeNaN negative payload
  | .infinity negative => f.overflow negative
  | .finite negative significand exponent =>
    f.round negative (significand * Nat.pow 2 exponent.toNat) (Nat.pow 2 (-exponent).toNat)

end Format

namespace Number

def isZero : Number → Bool
  | .finite _ significand _ => significand == 0
  | _ => false

/-- The integer part, toward zero; nothing for what is not finite. -/
def truncate? : Number → Option Int
  | .finite negative significand exponent =>
    let n : Nat := significand * Nat.pow 2 exponent.toNat / Nat.pow 2 (-exponent).toNat
    some (if negative then -(n : Int) else n)
  | _ => none

/-- The same number; a NaN becomes quiet. -/
def quiet : Number → Number
  | .nan negative payload =>
    let quietBit := Nat.pow 2 (Format.payloadBits - 1)
    .nan negative (if payload < quietBit then quietBit + payload else payload)
  | x => x

end Number

namespace Format

/-- The word of `target` nearest to a word of `source`.  A NaN becomes quiet, unless it comes to
single precision from a format that has one NaN only: those are widened by moving bits. -/
def convert (source target : Format) (word : Nat) : Nat :=
  if source = target then word
  else
    let x := source.decode word
    target.encode (if source.nanForm = .fixed ∧ target = single then x else x.quiet)

end Format

end Checkpoint.Binary
