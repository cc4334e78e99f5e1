import Checkpoint.Binary.Double
import Checkpoint.Text
/-!
The shortest decimal text of a double: the fewest digits that read back as the same double, and of
those the ones nearest to its value.  Positional notation is used for decimal exponents from -4 to
15, with at least one digit on each side of the point; scientific notation for the others.
-/

namespace Checkpoint.Decimal

/-- An interval of positive rationals over the common denominator `unit`, its ends included or
not. -/
structure Interval where
  lower : Nat
  upper : Nat
  unit : Nat
  closed : Bool

namespace Interval

/-- Whether `n / d` lies in the interval. -/
def holds (i : Interval) (n d : Nat) : Bool :=
  if i.closed then i.lower * d ≤ n * i.unit && n * i.unit ≤ i.upper * d
  else i.lower * d < n * i.unit && n * i.unit < i.upper * d

end Interval

/-- The numbers that round to `significand * 2 ^ exponent` among the doubles, as multiples of a
quarter of its last place: half a place up, and half of the lower neighbour's place down. -/
def roundingInterval (significand : Nat) (exponent : Int) : Interval :=
  let scale := Nat.pow 2 (exponent - 2).toNat
  let below := if significand = 0x10000000000000 ∧ -1074 < exponent then 1 else 2
  { lower := (4 * significand - below) * scale
    upper := (4 * significand + 2) * scale
    unit := Nat.pow 2 (2 - exponent).toNat
    closed := significand % 2 = 0 }

/-- The greatest `e` with `10 ^ e ≤ n / d`, searched from the estimate `e` on. -/
def floorLog10 (n d : Nat) : Nat → Int → Int
  | 0, e => e
  | fuel + 1, e =>
    if d * Nat.pow 10 (e + 1).toNat ≤ n * Nat.pow 10 (-(e + 1)).toNat then
      floorLog10 n d fuel (e + 1)
    else e

/-- The multiple of `10 ^ place` that stands for the value `n / d`: of its two neighbours on that
grid, the nearer one inside the interval. -/
def onGrid? (interval : Interval) (n d : Nat) (place : Int) : Option Nat :=
  let up := Nat.pow 10 place.toNat
  let down := Nat.pow 10 (-place).toNat
  let low := n * down / (d * up)
  let rest := n * down % (d * up)
  let lowHolds := interval.holds (low * up) down
  let highHolds := interval.holds ((low + 1) * up) down
  if lowHolds && highHolds then
    if 2 * rest < d * up then some low
    else if d * up < 2 * rest then some (low + 1)
    else some (low + low % 2)
  else if lowHolds then some low
  else if highHolds then some (low + 1)
  else none

/-- Tries ever finer grids, from one digit on; `digits` counts the digits that are left. -/
def search (interval : Interval) (n d : Nat) : Nat → Int → Nat × Int
  | 0, place => (n * Nat.pow 10 (-place).toNat / (d * Nat.pow 10 place.toNat), place)
  | digits + 1, place =>
    match onGrid? interval n d place with
    | some m => (m, place)
    | none => search interval n d digits (place - 1)

/-- The shortest digits of a positive `significand * 2 ^ exponent`: a whole number of
`10 ^ place`. -/
def shortest (significand : Nat) (exponent : Int) : Nat × Int :=
  let n := significand * Nat.pow 2 exponent.toNat
  let d := Nat.pow 2 (-exponent).toNat
  search (roundingInterval significand exponent) n d 17 (floorLog10 n d 700 (-330))

/-- Drops the zeros at the end of `m`, counting them into the place. -/
def trimZeros : Nat → Nat → Int → Nat × Int
  | 0, m, place => (m, place)
  | fuel + 1, m, place =>
    if m ≠ 0 ∧ m % 10 = 0 then trimZeros fuel (m / 10) (place + 1) else (m, place)

/-- How the magnitude `m * 10 ^ place` is written, where `m` does not end in a zero. -/
def layout (m : Nat) (place : Int) : String :=
  let digits := (toString m).toList
  let count := digits.length
  let exponent := place + count - 1
  if -4 ≤ exponent ∧ exponent < 16 then
    if 0 ≤ place then
      String.ofList (digits ++ List.replicate place.toNat '0') ++ ".0"
    else if 0 ≤ exponent then
      String.ofList (digits.take (exponent.toNat + 1)) ++ "." ++
        String.ofList (digits.drop (exponent.toNat + 1))
    else
      "0." ++ String.ofList (List.replicate (-exponent - 1).toNat '0' ++ digits)
  else
    let mantissa :=
      if count = 1 then String.ofList digits
      else String.ofList (digits.take 1) ++ "." ++ String.ofList (digits.drop 1)
    let sign := if exponent < 0 then "-" else "+"
    let size := toString exponent.natAbs
    mantissa ++ "e" ++ sign ++ (if size.length < 2 then "0" ++ size else size)

def ofDouble (x : Double) : Text :=
  match x.toNumber with
  | .nan .. => "nan"
  | .infinity negative => if negative then "-inf" else "inf"
  | .finite negative significand exponent =>
    let magnitude :=
      if significand = 0 then "0.0"
      else
        let (m, place) := shortest significand exponent
        let (m, place) := trimZeros 20 m place
        layout m place
    Text.ofString (if negative then "-" ++ magnitude else magnitude)

end Checkpoint.Decimal
