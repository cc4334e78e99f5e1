import Checkpoint.Pickle.Encoder
import Checkpoint.Archive.Writer
/-!
Saving archives: the version, the object stream, the byte order, and each storage that the object
stream refers to.  The object stream is complete before the first byte is written.
-/

namespace Checkpoint.Archive

open Pickle

/-- Writes the mapping at `id` as an archive; says which members were written. -/
def save (config : Config) (g : Graph) (id : Nat) : Action (List Text) := do
  let dump ← Effect.ofExcept (g.dump config id)
  Writer.writing config do
    Writer.writeVersion writtenVersion
    Writer.writeRecord objectRecord dump.bytes
    if config.writeByteOrder then Writer.writeByteOrder
    for use in dump.storages do
      Writer.writeStorage use.key (g.memory.buffer use.storage)

end Checkpoint.Archive
