import Checkpoint.Proofs.Archive.Abstention
import Checkpoint.Proofs.Archive.Alignment
import Checkpoint.Proofs.Archive.Container
import Checkpoint.Proofs.Archive.Foreign
import Checkpoint.Proofs.Archive.Isomorphic
import Checkpoint.Proofs.Archive.Loading
import Checkpoint.Proofs.Archive.Numbering
import Checkpoint.Proofs.Archive.RoundTrip
import Checkpoint.Proofs.Pickle.Integers
import Checkpoint.Proofs.Pickle.Limits
import Checkpoint.Proofs.Pickle.MemoSoundness
import Checkpoint.Proofs.Pickle.References
import Checkpoint.Proofs.Pickle.Truncation
import Checkpoint.Proofs.Safetensors.Canonical
import Checkpoint.Proofs.Safetensors.ReadPaths
import Checkpoint.Proofs.Safetensors.Reencoding
import Checkpoint.Proofs.Safetensors.Rejection
import Checkpoint.Proofs.Safetensors.RoundTrip
import Checkpoint.Proofs.Transfer.Agreement
import Checkpoint.Proofs.Transfer.Failure
import Checkpoint.Proofs.Transfer.Faults
import Checkpoint.Proofs.Transfer.Loaders
import Checkpoint.Proofs.Transfer.Merging
import Checkpoint.Proofs.Transfer.Policy
import Checkpoint.Proofs.Transfer.Restoration
import Checkpoint.Proofs.Transfer.Unwanted
import Checkpoint.Safetensors.Collection
import Checkpoint.Transfer
