import Folio.Expression.Building
import Folio.Proofs.AllOrNothing
import Folio.Proofs.Hooking
import Folio.Proofs.Idempotent
import Folio.Proofs.InRange
import Folio.Proofs.Interleaving
import Folio.Proofs.OneByOne
import Folio.Proofs.Replay
import Folio.Proofs.Returned
import Folio.Trial
import Folio.Proofs.OrderedMap
import Folio.Proofs.Refinement
import Folio.Proofs.OnePass
import Folio.Proofs.Sharing
import Folio.Proofs.Formulas
import Folio.Proofs.Addressing
import Folio.Proofs.Pruning
import Folio.Proofs.Retrying
import Folio.Proofs.MergePatch
import Folio.Proofs.Commuting
import Folio.Proofs.Sameness
import Folio.Proofs.Matching
import Folio.Proofs.Unchanged
import Folio.Proofs.Arrival
import Folio.Proofs.Upserting
import Folio.Proofs.Causes
import Folio.Proofs.Marks
import Folio.Proofs.Agreeing
import Folio.Proofs.Acceptance
import Folio.Proofs.Transactions
import Folio.Proofs.Generated
import Folio.Proofs.Metering
import Folio.Proofs.Aggregation
import Folio.Proofs.Contents
