import Proviso.Json.Reader
import Proviso.Eval
import Proviso.Store
import Proviso.Builtin.Catalogue
import Proviso.Proofs.Token.Rendering
import Proviso.Proofs.Token.Fault
import Proviso.Proofs.Grammar.Height
import Proviso.Proofs.Grammar.Nodes
import Proviso.Proofs.Grammar.Numbers
import Proviso.Proofs.Grammar.Place
import Proviso.Proofs.Grammar.Parentheses
import Proviso.Proofs.Eval.Bindings
import Proviso.Proofs.Eval.Chain
import Proviso.Proofs.Eval.Reads
import Proviso.Proofs.Eval.Settings
import Proviso.Proofs.Eval.Literals
import Proviso.Proofs.Eval.Depth
import Proviso.Proofs.Eval.Now
import Proviso.Proofs.Operand.Absence
import Proviso.Proofs.Operand.Arrays
import Proviso.Proofs.Decimal.Spelling
import Proviso.Proofs.Store.Eviction
import Proviso.Proofs.Delegation.Budget
import Proviso.Proofs.Delegation.Authority
import Proviso.Proofs.AuditTrail
import Proviso.Proofs.Delegation.Descendants
import Proviso.Proofs.Amount
import Proviso.Proofs.Saga
import Proviso.Proofs.Delegation.Links
import Proviso.Proofs.Capability
import Proviso.Proofs.TimeLimits
import Proviso.Proofs.Eval.Difference
import Proviso.Proofs.Catalogue
import Proviso.Proofs.Voting
import Proviso.Proofs.Counter
