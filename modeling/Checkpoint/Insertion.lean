/-!
Sorting by insertion, with an order that may fail to compare two items; then the sorting fails.  The
items that are in order at the start are taken as they are, each other one is put behind those that
are not greater, at a place that is found by halving.
-/

namespace Checkpoint.Insertion

variable {α ε : Type}

/-- Items as long as each is, or is not, less than the one before it, the last one first; and those
that are left. -/
def run (less : α → α → Except ε Bool) (falls : Bool) (last : α) (taken : List α) :
    List α → Except ε (List α × List α)
  | [] => .ok (taken, [])
  | x :: rest => do
    if (← less x last) = falls then run less falls x (x :: taken) rest
    else return (taken, x :: rest)

/-- The place of an item among sorted ones, between `low` and `high`. -/
def place (less : α → α → Except ε Bool) (x : α) (sorted : List α) (low high : Nat) :
    Except ε Nat :=
  if low < high then
    let middle := low + (high - low) / 2
    match sorted[middle]? with
    | none => .ok low
    | some y => match less x y with
      | .error e => .error e
      | .ok true => place less x sorted low middle
      | .ok false => place less x sorted (middle + 1) high
  else .ok low
termination_by high - low
decreasing_by all_goals omega

def insert (less : α → α → Except ε Bool) (sorted : List α) (x : α) : Except ε (List α) := do
  let n ← place less x sorted 0 sorted.length
  return sorted.take n ++ x :: sorted.drop n

/-- Sorts a list; items that are not less than one another keep their order. -/
def sort (less : α → α → Except ε Bool) : List α → Except ε (List α)
  | x :: y :: rest => do
    let falls ← less y x
    let (taken, rest) ← run less falls y [y, x] rest
    rest.foldlM (insert less) (if falls then taken else taken.reverse)
  | short => .ok short

end Checkpoint.Insertion
