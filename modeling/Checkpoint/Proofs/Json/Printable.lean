import Checkpoint.Json.Scan
import Mathlib.Algebra.Ring.Nat

/-! Numbers that are short enough to be spelled in messages: all that a document holds are, and so is
whatever a fault in it tells. -/

namespace Checkpoint

/-- A number that is short enough to be spelled. -/
def Printable (n : Nat) : Prop := n < 10 ^ Decimal.digitLimit

theorem Printable.of_le {m n : Nat} (h : Printable n) (le : m ≤ n) : Printable m :=
  Nat.lt_of_le_of_lt le h

theorem isPrintable_iff {n : Nat} : Decimal.isPrintable n = true ↔ Printable n := by
  simp only [Decimal.isPrintable, Printable, Int.natAbs_natCast, Nat.pow_eq, decide_eq_true_eq]

/-- A failure tells no number that is out of proportion to a document of `n` bytes. -/
def JsonError.Within (n : Nat) : JsonError → Prop
  | .fault _ line column position => line ≤ n + 1 ∧ column ≤ n + 1 ∧ position ≤ n
  | .digitLimit digits => digits ≤ n
  | .duplicateKey _ => True

namespace Json

open Text

/-- Documents whose whole numbers can all be spelled. -/
inductive Value.Printable : Value → Prop
  | null : Printable .null
  | bool (b : Bool) : Printable (.bool b)
  | int {n : Int} : Checkpoint.Printable n.natAbs → Printable (.int n)
  | float (x : Double) : Printable (.float x)
  | text (t : Text) : Printable (.text t)
  | array {items : List Value} : (∀ v ∈ items, Printable v) → Printable (.array items)
  | object {entries : List (Text × Value)} : (∀ e ∈ entries, Printable e.2) →
    Printable (.object entries)

/-- A failure tells no number of digits above `n`. -/
def Failure.Within (n : Nat) : Failure → Prop
  | .digitLimit digits => digits ≤ n
  | _ => True

end Json

end Checkpoint
