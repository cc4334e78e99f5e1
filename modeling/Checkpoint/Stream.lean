import Checkpoint.Error
/-!
Byte streams.  A stream has its content, a position, a log of the calls made on it, and possibly
faults: methods that fail from some call on, and a region of bytes that cannot be read.  Operations
are state transformers that keep the stream when they fail.
-/

namespace Checkpoint

/-- What a stream offers: everything; reading and writing in order, saying that it cannot seek; or
reading and writing in order and nothing to ask. -/
inductive StreamMode
  | seekable
  | forward
  | bare
  deriving DecidableEq, Repr, Inhabited

inductive StreamMethod
  | read
  | write
  | seek
  | tell
  | seekable
  | close
  deriving DecidableEq, Repr

def StreamMethod.all : List StreamMethod := [read, write, seek, tell, seekable, close]

def StreamMethod.name : StreamMethod → String
  | read => "read"
  | write => "write"
  | seek => "seek"
  | tell => "tell"
  | seekable => "seekable"
  | close => "close"

structure Stream where
  content : Bytes := []
  position : Nat := 0
  mode : StreamMode := .seekable
  /-- A file on disk refuses some requests in other words than a stream in memory. -/
  isFile : Bool := false
  /-- The methods that fail, each with the number of the first call that does. -/
  failing : List (StreamMethod × Nat) := []
  /-- The first byte that cannot be read and the first after those. -/
  unreadable : Option (Nat × Nat) := none
  calls : List StreamMethod := []
  closed : Bool := false
  deriving Inhabited

/-- Work on a state of type `σ`; a failure keeps what has happened to it. -/
abbrev Effect (σ : Type) := EStateM Error σ

/-- Work on one stream. -/
abbrev Action := Effect Stream

namespace Stream

def ofBytes (bytes : Bytes) : Stream := { content := bytes }

def callCount (s : Stream) (m : StreamMethod) : Nat := s.calls.count m

/-- Whether the call that is about to be made fails. -/
def failsNext (s : Stream) (m : StreamMethod) : Bool :=
  s.failing.any fun (method, first) => method == m && first ≤ s.callCount m + 1

def offers (s : Stream) (m : StreamMethod) : Bool :=
  match s.mode, m with
  | .seekable, _ => true
  | .forward, m => m != .seek && m != .tell
  | .bare, m => m != .seek && m != .tell && m != .seekable

/-- Enters a call into the log; it fails if the stream does not offer the method, if the stream is
closed, or if a fault is set for the method. -/
def call (m : StreamMethod) : Action Unit := do
  let s ← get
  unless s.offers m do throw .missingOperation
  set { s with calls := m :: s.calls }
  if s.closed then throw .closedStream
  if s.failsNext m then throw (.rawStream (Text.ofString ("injected " ++ m.name ++ " failure")))

/-- The first number that is no position and no size. -/
def sizeLimit : Nat := 0x8000000000000000

/-- The least number of bytes that there is no memory for when they are read from a file. -/
def fileReadLimit : Nat := 0x10000000000

/-- The least number of bytes that no memory is asked for when they are read from a file. -/
def fileSizeLimit : Nat := sizeLimit - 33

/-- Why so many bytes cannot be read at once. -/
def readFault? (s : Stream) (size : Nat) : Option Error :=
  if sizeLimit ≤ size || s.isFile && fileSizeLimit ≤ size then some .sizeOverflow
  else if s.isFile && fileReadLimit ≤ size then some .outOfMemory
  else none

/-- The failure of going to a position before the start. -/
def refusal (s : Stream) : Error :=
  if s.isFile then .rawStream "[Errno 22] Invalid argument" else .negativePosition

/-- Whether the bytes from `start` up to `stop` meet the unreadable region. -/
def blocks (s : Stream) (start stop : Nat) : Bool :=
  match s.unreadable with
  | some (first, last) => start < last && first < stop && start < stop
  | none => false

/-- Reads at most `size` bytes, or all that are left. -/
def read (size : Option Nat) : Action Bytes := do
  call .read
  let s ← get
  if let some fault := size.bind s.readFault? then throw fault
  let rest := s.content.drop s.position
  let data := match size with
    | some n => rest.take n
    | none => rest
  if s.blocks s.position (s.position + data.length) then throw (.rawStream "injected bad region")
  set { s with position := s.position + data.length }
  return data

/-- The content after `data` is put at `position`; a gap before it is filled with zeros. -/
def overwrite (content : Bytes) (position : Nat) (data : Bytes) : Bytes :=
  content.take position ++ List.replicate (position - content.length) 0 ++ data ++
    content.drop (position + data.length)

def write (data : Bytes) : Action Unit := do
  call .write
  let s ← get
  unless data.isEmpty do
    set { s with
      content := overwrite s.content s.position data
      position := s.position + data.length }

def seek (position : Int) : Action Unit := do
  call .seek
  if position < 0 then throw (← get).refusal
  if (sizeLimit : Int) ≤ position then throw .sizeOverflow
  modify ({ · with position := position.toNat })

/-- Goes to `back` bytes before the end, or in memory to the start if there are fewer; says where that
is. -/
def seekFromEnd (back : Nat) : Action Nat := do
  call .seek
  let s ← get
  if s.isFile && s.content.length < back then throw s.refusal
  modify fun s => { s with position := s.content.length - back }
  return (← get).position

def tell : Action Nat := do
  call .tell
  return (← get).position

/-- Whether the stream says that it can seek.  A forward stream answers without entering the log. -/
def seekable : Action Bool := do
  let s ← get
  match s.mode with
  | .seekable =>
    call .seekable
    return true
  | .forward => if s.closed then throw .closedStream else return false
  | .bare => throw .missingOperation

/-- Whether the stream can seek; one that fails to answer cannot. -/
def canSeek : Action Bool :=
  tryCatch seekable fun
    | .missingOperation | .rawStream _ => pure false
    | e => throw e

/-- Closes the stream; closing it again does nothing. -/
def close : Action Unit := do
  let s ← get
  unless s.closed do
    call .close
    modify ({ · with closed := true })

end Stream

namespace Effect

variable {σ τ α : Type}

/-- Puts a failure of the stream itself into the words of the operation that met it. -/
def describing (describe : Text → StreamError) (action : Effect σ α) : Effect σ α :=
  tryCatch action fun
    | .rawStream reason => throw (.streamFailed (describe reason))
    | e => throw e

/-- The outcome of the action as a value. -/
def outcome (action : Effect σ α) : Effect σ (Except Error α) :=
  tryCatch (.ok <$> action) fun e => pure (.error e)

def ofExcept (result : Except Error α) : Effect σ α :=
  match result with
  | .ok a => pure a
  | .error e => throw e

/-- Runs `cleanup` after `action` whether that fails or not; a failure of the cleanup wins. -/
def andFinally (action : Effect σ α) (cleanup : Effect σ Unit) : Effect σ α := do
  let result ← outcome action
  cleanup
  ofExcept result

/-- Work on a part of the state. -/
def focus (part : σ → τ) (restore : τ → σ → σ) (action : Effect τ α) : Effect σ α := fun s =>
  match action (part s) with
  | .ok a t => .ok a (restore t s)
  | .error e t => .error e (restore t s)

/-- Runs the action from a state: the outcome, and the state as it is left. -/
def perform (action : Effect σ α) (s : σ) : Except Error α × σ :=
  match action s with
  | .ok a s => (.ok a, s)
  | .error e s => (.error e, s)

end Effect

end Checkpoint
