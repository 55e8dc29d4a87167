import Paging.Main
import Paging.Recorder
import Paging.Session
import Paging.Proofs.Scalar.Order
import Paging.Proofs.Walk.Changing
import Paging.Proofs.Walk.Offsets
import Paging.Proofs.Walk.Tokens
import Paging.Proofs.Paginator.Dependence
import Paging.Proofs.Cursor.Equality
import Paging.Proofs.Walk.Backward
import Paging.Proofs.Binary64.Number
import Paging.Proofs.Scalar.Numbers
import Paging.Proofs.Binary64.Integers
import Paging.Proofs.Scalar.Integers
import Paging.Proofs.Paginator.NumberedPage
import Paging.Proofs.Cli.Modes
import Paging.Proofs.Paginator.Bounds
import Paging.Binary64.Comparison
import Paging.Proofs.Binary64.Comparison
import Paging.Proofs.Scalar.Chronology
import Paging.Proofs.Cursor.Canonical
import Paging.Proofs.Table.Evaluation
import Paging.Proofs.Filter.Seeking
import Paging.Proofs.Paginator.Tiling
import Paging.Proofs.Paginator.Words
import Paging.Proofs.Table.Telling
import Paging.Proofs.Json.Shapes
import Paging.Proofs.Paginator.Reporting
import Paging.Proofs.Paginator.Drafts
import Paging.Proofs.Paginator.Redundancy
