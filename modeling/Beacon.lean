import Beacon.Bls.Scheme
import Beacon.Config.Form
import Beacon.Epoch.Transition
import Beacon.Json.Reader
import Beacon.Json.Writer
import Beacon.Operation.AttesterSlashing
import Beacon.Operation.ProposerSlashing
import Beacon.Operation.VoluntaryExit
import Beacon.Proofs.BlockRoots
import Beacon.Proofs.Epoch.Activations
import Beacon.Proofs.Epoch.Bounds
import Beacon.Proofs.Epoch.Cancellation
import Beacon.Proofs.Epoch.Churn
import Beacon.Proofs.Epoch.Leak
import Beacon.Proofs.Epoch.Proportional
import Beacon.Proofs.Epoch.Reapplied
import Beacon.Proofs.Epoch.Remaining
import Beacon.Proofs.Epoch.Slashed
import Beacon.Proofs.Epoch.VoteOrder
import Beacon.Proofs.Faults
import Beacon.Proofs.Hash.PerfectTree
import Beacon.Proofs.Json.Forms
import Beacon.Proofs.Json.Integers
import Beacon.Proofs.Json.PartialConfig
import Beacon.Proofs.KeyCache
import Beacon.Proofs.Lifecycle
import Beacon.Proofs.LookAhead
import Beacon.Proofs.Operation.Acceptance
import Beacon.Proofs.Operation.Accounts
import Beacon.Proofs.Overflow
import Beacon.Proofs.Registry.ExitLaw
import Beacon.Proofs.Registry.Payments
import Beacon.Proofs.Replay
import Beacon.Proofs.Signature.Binding
import Beacon.State.Form
