import Checkpoint.Pickle.Constructor
import Checkpoint.Pickle.Instruction
import Checkpoint.Config
/-!
The machine that runs an object stream.  It has a stack, stacks suspended by marks, a memo and a
heap, and registers storages in an arena.  Only listed instructions exist and only listed
constructors are called; limits hold for the depth of the stacks and the size of the memo.
-/

namespace Checkpoint.Pickle

open Archive

structure Stack where
  /-- The current stack, its top first. -/
  items : List Value := []
  /-- The stacks below the open marks, the innermost first. -/
  suspended : List (List Value) := []
  deriving Inhabited

namespace Stack

/-- All values on all stacks, and one for each open mark. -/
def depth (s : Stack) : Nat :=
  s.suspended.foldr (fun items below => items.length + 1 + below) s.items.length

end Stack

/-- What can be seen of a machine after an instruction. -/
structure Snapshot where
  position : Nat
  stackSize : Nat
  markCount : Nat
  memoSize : Nat
  deriving DecidableEq, Repr

structure Machine where
  arena : Arena
  stack : Stack := {}
  memo : Table Nat Value := {}
  heap : Heap := {}
  protocol : Nat := 0
  /-- The snapshots after each instruction, the last one first. -/
  trace : List Snapshot := []

namespace Machine

abbrev Running := Effect Machine

def refuse (cause : ProtocolError) : Running α := throw (.unsupportedProtocol cause)

/-- The offset that messages give for the byte before `c`. -/
def lastOffset (c : Cursor) : Int := (c.position : Int) - 1

def checkDepth (config : Config) : Running Unit := do
  if config.maxStackDepth ≤ (← get).stack.depth then refuse (.stackDepth config.maxStackDepth)

def push (config : Config) (v : Value) : Running Unit := do
  checkDepth config
  modify fun m => { m with stack := { m.stack with items := v :: m.stack.items } }

def pop (c : Cursor) : Running Value := do
  let m ← get
  match m.stack.items with
  | [] => refuse (.underflow (lastOffset c))
  | v :: rest =>
    set { m with stack := { m.stack with items := rest } }
    return v

def top (c : Cursor) : Running Value := do
  match (← get).stack.items with
  | [] => refuse (.underflow (lastOffset c))
  | v :: _ => return v

/-- Takes the values above the last mark, in the order in which they were pushed. -/
def popMark (c : Cursor) : Running (List Value) := do
  let m ← get
  match m.stack.suspended with
  | [] => refuse (.noMark (lastOffset c))
  | below :: rest =>
    set { m with stack := { items := below, suspended := rest } }
    return m.stack.items.reverse

def mark (config : Config) : Running Unit := do
  checkDepth config
  modify fun m =>
    { m with stack := { items := [], suspended := m.stack.items :: m.stack.suspended } }

/-- Pushes a new object. -/
def pushObject (config : Config) (o : Object) : Running Unit := do
  let m ← get
  let (id, heap) := m.heap.allocate o
  set { m with heap }
  push config (.object id)

def setObject (id : Nat) (o : Object) : Running Unit :=
  modify fun m => { m with heap := m.heap.set id o }

/-- Appends to the list on top. -/
def extendList (c : Cursor) (items : List Value) : Running Unit := do
  let target ← top c
  let heap := (← get).heap
  let wrong : Running Unit := refuse (.appendOnto (heap.typeName target))
  match target with
  | .object id => match heap.get? id with
    | some (.list old) => setObject id (.list (old ++ items))
    | _ => wrong
  | _ => wrong

/-- Keys and values that alternate, as pairs. -/
def pairs : List Value → List (Value × Value)
  | key :: value :: rest => (key, value) :: pairs rest
  | _ => []

/-- Enters items into the mapping on top; those before an unhashable key stay entered. -/
def enterItems (c : Cursor) (items : List (Value × Value)) : Running Unit := do
  let target ← top c
  let heap := (← get).heap
  let wrong : Running Unit := refuse (.setItemOnto (heap.typeName target))
  let finish (hashable : Bool) : Running Unit := do
    unless hashable do refuse (.unhashableKey (lastOffset c))
  match target with
  | .object id => match heap.get? id with
    | some (.dict old) =>
      let (entries, hashable) := enterAll old items
      setObject id (.dict entries)
      finish hashable
    | some (.ordered old attributes) =>
      let (entries, hashable) := enterAll old items
      setObject id (.ordered entries attributes)
      finish hashable
    | _ => wrong
  | _ => wrong

def memoPut (config : Config) (c : Cursor) (index : Nat) : Running Unit := do
  let memo := (← get).memo
  if !memo.contains index && config.maxMemoSize ≤ memo.size then
    refuse (.memoSize config.maxMemoSize)
  let v ← top c
  modify fun m => { m with memo := m.memo.insert index v }

def memoGet (config : Config) (index : Nat) : Running Unit := do
  match (← get).memo.get? index with
  | some v => push config v
  | none => refuse (.memoUndefined index)

def pushGlobal (config : Config) (module name : Text) : Running Unit :=
  match findGlobal module name with
  | .ok v => push config v
  | .error e => refuse e

/-- Calls the constructor below the arguments and puts the result in its place. -/
def reduce (c : Cursor) : Running Unit := do
  let arguments ← pop c
  let target ← top c
  let m ← get
  match target with
  | .constructor constructor => match arguments with
    | .tuple items _ => match constructor.call m.heap items c.position with
      | .ok (v, heap) =>
        set { m with heap, stack := { m.stack with items := v :: m.stack.items.tail } }
      | .error e => throw e
    | _ => refuse (.argumentsType (m.heap.typeName arguments))
  | _ => refuse (.notCallable (m.heap.shown target))

/-- Sets attributes of an ordered mapping in turn; those before a name that is not allowed stay
set. -/
def setAttributes (id : Nat) : List (Value × Value) → Running Unit
  | [] => return
  | (key, value) :: rest => do
    let heap := (← get).heap
    let wrong : Running Unit := refuse (.attribute (heap.shown key))
    match key, heap.get? id with
    | .text name, some (.ordered entries attributes) =>
      if isAttributeName name then
        setObject id (.ordered entries (attributes.insert name value))
        setAttributes id rest
      else wrong
    | _, _ => wrong

/-- Gives state to the value on top: nothing to a tensor, attributes to an ordered mapping. -/
def build (c : Cursor) : Running Unit := do
  let state ← pop c
  let target ← top c
  let heap := (← get).heap
  let wrong : Running Unit := refuse (.buildOnto (heap.typeName target))
  match target with
  | .tensor _ => if heap.isTrue state then refuse .tensorState
  | .object id => match heap.get? id, state with
    | some (.ordered ..), .object stateId => match heap.get? stateId with
      | some (.dict entries) => setAttributes id entries.entries
      | some (.ordered entries _) => setAttributes id entries.entries
      | _ => wrong
    | _, _ => wrong
  | _ => wrong

/-- The kind of a persistent id, which may be given in bytes. -/
def persistentKind : Value → Value
  | .bytes b => .text (Text.ofAsciiReplacing b)
  | v => v

/-- The reference that a persistent id makes: the word `storage`, a storage class, a key, a
location and a number of elements. -/
def persistentRef (h : Heap) (id : Value) : Except Error PersistentRef :=
  match id with
  | .tuple [kind, storageType, key, location, count] _ =>
    if persistentKind kind != .text "storage" then
      .error (.unsupportedProtocol (.persistentType (h.shown (persistentKind kind))))
    else match storageType with
      | .storageClass _ dtype => match key, location with
        | .text key, .text location => match count with
          | .int n =>
            if n < 0 then .error (.unexpectedStructure (.storageCount (h.shown count)))
            else .ok { key, dtype, count := n, location }
          | _ => .error (.unexpectedStructure (.storageCount (h.shown count)))
        | _, _ => .error (.unexpectedStructure (.storageKey (h.shown key) (h.shown location)))
      | v => .error (.unsupportedProtocol (.persistentStorage (h.shown v)))
  | v => .error (.unsupportedProtocol (.persistentId (h.shown v)))

def resolvePersistent (config : Config) (c : Cursor) : Running Unit := do
  let id ← pop c
  let m ← get
  let ref ← Effect.ofExcept (persistentRef m.heap id)
  let (_, arena) ← Effect.ofExcept (m.arena.resolve ref)
  set { m with arena }
  push config (.persistent ref)

/-- Executes an instruction other than the last one; `c` is the place behind it. -/
def execute (config : Config) (c : Cursor) : Instruction → Running Unit
  | .proto version => do
    if version < 2 || 5 < version then refuse (.protocolVersion version.toNat)
    modify ({ · with protocol := version.toNat })
  | .frame size => do
    if c.size < c.position + size.toNat then refuse (.frame size.toNat)
  | .stop => return
  | .mark => mark config
  | .pop => do
    if (← get).stack.items.isEmpty then let _ ← popMark c
    else let _ ← pop c
  | .popMark => do let _ ← popMark c
  | .none => push config .none
  | .bool b => push config (.bool b)
  | .int1 n => push config (.int n.toNat)
  | .int2 n => push config (.int n.toNat)
  | .int4 n => push config (.int n.toInt)
  | .long n => push config (.int n)
  | .float x => push config (.float x c.position)
  | .unicode t | .shortUnicode t | .unicode8 t => push config (.text t)
  | .string t | .shortString t => push config (.text t)
  | .bytes b | .shortBytes b => push config (.bytes b)
  | .emptyTuple => push config (.tuple [] c.position)
  | .tuple => do
    let items ← popMark c
    push config (.tuple items c.position)
  | .tuple1 => do
    let a ← pop c
    push config (.tuple [a] c.position)
  | .tuple2 => do
    let b ← pop c
    let a ← pop c
    push config (.tuple [a, b] c.position)
  | .tuple3 => do
    let d ← pop c
    let b ← pop c
    let a ← pop c
    push config (.tuple [a, b, d] c.position)
  | .emptyList => pushObject config (.list [])
  | .append => do
    let v ← pop c
    extendList c [v]
  | .appends => do
    let items ← popMark c
    extendList c items
  | .emptyDict => pushObject config (.dict {})
  | .setItem => do
    let value ← pop c
    let key ← pop c
    enterItems c [(key, value)]
  | .setItems => do
    let items ← popMark c
    if items.length % 2 = 1 then refuse .oddItems
    enterItems c (pairs items)
  | .put index => memoPut config c index.toNat
  | .longPut index => memoPut config c index.toNat
  | .memoize => do memoPut config c (← get).memo.size
  | .get index => memoGet config index.toNat
  | .longGet index => memoGet config index.toNat
  | .global module name => pushGlobal config module name
  | .stackGlobal => do
    let name ← pop c
    let module ← pop c
    match module, name with
    | .text module, .text name => pushGlobal config module name
    | _, _ => refuse .globalNotText
  | .reduce => reduce c
  | .build => build c
  | .persistentId => resolvePersistent config c

def snapshot (m : Machine) (c : Cursor) : Snapshot where
  position := c.position
  stackSize := m.stack.items.length
  markCount := m.stack.suspended.length
  memoSize := m.memo.size

/-- The result of a stream: the one value that is left at its end. -/
def result (c : Cursor) : Running Value := do
  let v ← pop c
  let stack := (← get).stack
  unless stack.items.isEmpty && stack.suspended.isEmpty do
    throw (.unexpectedStructure .valuesLeft)
  return v

/-- Runs the stream to its stop instruction: the value, and the place behind it. -/
def run (config : Config) (c : Cursor) : Running (Value × Cursor) :=
  match h : Instruction.read c with
  | .error e => refuse e
  | .ok (i, next) =>
    have := Instruction.length_rest_lt_of_read h
    if i = .stop then do
      return (← result next, next)
    else do
      execute config next i
      modify fun m => { m with trace := m.snapshot next :: m.trace }
      run config next
termination_by c.rest.length

/-- Runs a stream from its first byte on a new machine. -/
def load (config : Config) (arena : Arena) (bytes : Bytes) :
    Except Error (Value × Cursor) × Machine :=
  (run config (Cursor.start bytes)).perform { arena }

end Machine

end Checkpoint.Pickle
