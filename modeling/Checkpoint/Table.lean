/-!
Tables that keep the order in which their keys were first entered.  Entering a key again replaces
its value and leaves key and place alone.
-/

namespace Checkpoint

structure Table (κ ν : Type) where
  entries : List (κ × ν) := []
  deriving Inhabited

namespace Table

variable {κ ν : Type}

def empty : Table κ ν := {}

def keys (t : Table κ ν) : List κ := t.entries.map Prod.fst

def values (t : Table κ ν) : List ν := t.entries.map Prod.snd

def size (t : Table κ ν) : Nat := t.entries.length

variable [BEq κ]

def get? (t : Table κ ν) (key : κ) : Option ν :=
  (t.entries.find? fun entry => entry.1 == key).map Prod.snd

def contains (t : Table κ ν) (key : κ) : Bool :=
  t.entries.any fun entry => entry.1 == key

def insertInto (key : κ) (value : ν) : List (κ × ν) → List (κ × ν)
  | [] => [(key, value)]
  | entry :: rest =>
    if entry.1 == key then (entry.1, value) :: rest else entry :: insertInto key value rest

def insert (t : Table κ ν) (key : κ) (value : ν) : Table κ ν :=
  ⟨insertInto key value t.entries⟩

def ofList (entries : List (κ × ν)) : Table κ ν :=
  entries.foldl (fun t entry => t.insert entry.1 entry.2) {}

def insertAll (t : Table κ ν) (entries : List (κ × ν)) : Table κ ν :=
  entries.foldl (fun t entry => t.insert entry.1 entry.2) t

end Table

end Checkpoint
