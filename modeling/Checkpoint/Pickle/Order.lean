import Checkpoint.Pickle.Value
/-!
The order of keys.  Numbers are compared by value, texts and byte strings item by item, tuples by the
first items that differ; values of different kinds do not compare.
-/

namespace Checkpoint.Pickle

/-- A number on the line that the infinities end. -/
inductive Magnitude
  | below
  /-- A multiple of the smallest positive double. -/
  | ticks (n : Int)
  | above

namespace Magnitude

def less : Magnitude → Magnitude → Bool
  | ticks m, ticks n => m < n
  | below, below => false
  | below, _ => true
  | ticks _, above => true
  | _, _ => false

def ofInt (n : Int) : Magnitude := ticks (n * (Nat.pow 2 1074 : Nat))

/-- The magnitude of a double that is not NaN. -/
def ofDouble? (x : Double) : Option Magnitude :=
  match x.toNumber with
  | .nan .. => none
  | .infinity negative => some (if negative then below else above)
  | .finite .. => x.ticks?.map ticks

end Magnitude

namespace Value

def isNumber : Value → Bool
  | bool _ | int _ | float .. => true
  | _ => false

/-- The magnitude of a number that is not NaN. -/
def magnitude? : Value → Option Magnitude
  | float x _ => Magnitude.ofDouble? x
  | v => v.integer?.map Magnitude.ofInt

/-- The order of numbers, in which a NaN is neither less nor greater. -/
def numberLess (v w : Value) : Bool :=
  match v.magnitude?, w.magnitude? with
  | some m, some n => m.less n
  | _, _ => false

/-- The order of byte strings: by the first byte that differs, a shorter one before its
continuations. -/
def bytesLess : Bytes → Bytes → Bool
  | _, [] => false
  | [], _ :: _ => true
  | a :: as, b :: bs => a.toNat < b.toNat || (a == b && bytesLess as bs)

mutual

/-- Whether a value is less than another, if the two compare. -/
def less? : Value → Value → Option Bool
  | text s, text t => some !(Text.le t s)
  | bytes a, bytes b => some (bytesLess a b)
  | tuple xs _, tuple ys _ => lessAll? xs ys
  | v, w => if v.isNumber && w.isNumber then some (numberLess v w) else Option.none

def lessAll? : List Value → List Value → Option Bool
  | [], ys => some !ys.isEmpty
  | _ :: _, [] => some false
  | x :: xs, y :: ys => if same x y then lessAll? xs ys else less? x y

end

end Value

end Checkpoint.Pickle
