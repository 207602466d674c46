import Callable.Machine.Fuel
import Callable.Session.Run
import Callable.Settings.Document
import Callable.Settings.Environment
import Callable.Proofs.TailCalls
import Callable.Proofs.DirectStyle
import Callable.Proofs.Currying
import Callable.Proofs.AmbientState
import Callable.Proofs.Ledger
import Callable.Proofs.Delivery
import Callable.Proofs.Callers
import Callable.Proofs.Truncation
import Callable.Proofs.LoopLimit.Balance
import Callable.Proofs.LoopLimit.Progress
import Callable.Proofs.LoopLimit
import Callable.Proofs.Constructions
import Callable.Proofs.Tracing
import Callable.Proofs.Provenance
import Callable.Proofs.Arity
import Callable.Proofs.LoopLimit.Chain
import Callable.Proofs.HostBoundary
import Callable.Proofs.Carried
import Callable.Proofs.Identity
import Callable.Proofs.Equality
import Callable.Proofs.Settings.Environment
import Callable.Proofs.Forcing
import Callable.Proofs.Settings.Document
import Callable.Proofs.Lookup
import Callable.Proofs.Saturation
