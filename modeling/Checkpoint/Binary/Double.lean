import Checkpoint.Binary.Format
/-!
Double-precision numbers, kept as their 64 bits so that NaNs and the sign of zero survive.
-/

namespace Checkpoint

structure Double where
  bits : UInt64
  deriving DecidableEq, Repr, Inhabited

namespace Double

open Binary

def toNumber (x : Double) : Number := Format.double.decode x.bits.toNat

/-- The double nearest to `± n / d`. -/
def ofRatio (negative : Bool) (n d : Nat) : Double :=
  ⟨UInt64.ofNat (Format.double.round negative n d)⟩

def isNaN (x : Double) : Bool :=
  match x.toNumber with
  | .nan .. => true
  | _ => false

def isZero (x : Double) : Bool := x.toNumber.isZero

/-- A finite double as a whole number of the smallest positive one, `2 ^ (-1074)`. -/
def ticks? (x : Double) : Option Int :=
  match x.toNumber with
  | .finite negative significand exponent =>
    let n : Nat := significand * Nat.pow 2 (exponent + 1074).toNat
    some (if negative then -(n : Int) else n)
  | _ => none

/-- Numeric equality of two doubles that are not NaN: zeros are equal whatever their sign. -/
def sameValue (x y : Double) : Bool :=
  match x.toNumber, y.toNumber with
  | .finite .., .finite .. => x.ticks? == y.ticks?
  | .infinity a, .infinity b => a == b
  | _, _ => false

/-- Exact equality with an integer. -/
def equalsInt (x : Double) (n : Int) : Bool :=
  x.ticks? == some (n * (Nat.pow 2 1074 : Nat))

end Double

end Checkpoint
