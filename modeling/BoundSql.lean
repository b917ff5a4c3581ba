import BoundSql.Proofs.Accounting
import BoundSql.Proofs.Alone
import BoundSql.Proofs.Choices
import BoundSql.Proofs.Clauses
import BoundSql.Proofs.Conditions
import BoundSql.Proofs.Coverage
import BoundSql.Proofs.Decoding
import BoundSql.Proofs.Deletion
import BoundSql.Proofs.FailedFields
import BoundSql.Proofs.Isolation
import BoundSql.Proofs.Limits
import BoundSql.Proofs.Members
import BoundSql.Proofs.Merging
import BoundSql.Proofs.NameIndependence
import BoundSql.Proofs.NonInterference
import BoundSql.Proofs.Operands
import BoundSql.Proofs.Provenance
import BoundSql.Proofs.Quoting
import BoundSql.Proofs.ReadingOrder
import BoundSql.Proofs.Scalars
import BoundSql.Proofs.Slots
import BoundSql.Proofs.Standing
import BoundSql.Proofs.Totality
import BoundSql.Proofs.Transparency
import BoundSql.Proofs.Validity
import BoundSql.Script.Turn
