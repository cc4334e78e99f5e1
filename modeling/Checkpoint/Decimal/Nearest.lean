import Checkpoint.Binary.Double
/-!
Reading decimals as doubles, correctly rounded.
-/

namespace Checkpoint.Decimal

/-- The double nearest to `± m * 10 ^ place`.  Magnitudes that no double comes near to are decided
by their number of digits alone: from `10 ^ 310` on they are infinite, below `10 ^ (-330)` zero. -/
def nearest (negative : Bool) (m : Nat) (place : Int) : Double :=
  let size := (Nat.toDigits 10 m).length + place
  if m = 0 ∨ size < -330 then Double.ofRatio negative 0 1
  else if 310 < size then Double.ofRatio negative (Nat.pow 10 310) 1
  else Double.ofRatio negative (m * Nat.pow 10 place.toNat) (Nat.pow 10 (-place).toNat)

end Checkpoint.Decimal
