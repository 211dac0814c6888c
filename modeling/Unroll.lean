import Unroll.Main
import Unroll.Proofs.Alphabet
import Unroll.Proofs.Canonical
import Unroll.Proofs.Chunks
import Unroll.Proofs.Complaints
import Unroll.Proofs.Composition
import Unroll.Proofs.Counting
import Unroll.Proofs.Equivariance
import Unroll.Proofs.Escapes
import Unroll.Proofs.Flattening
import Unroll.Proofs.Interchange
import Unroll.Proofs.Limits
import Unroll.Proofs.Numerals
import Unroll.Proofs.Objects
import Unroll.Proofs.Options
import Unroll.Proofs.Progress
import Unroll.Proofs.Refusals
import Unroll.Proofs.Reports
import Unroll.Proofs.Storage
import Unroll.Proofs.Tables
import Unroll.Proofs.Walks
import Unroll.Proofs.Widths
