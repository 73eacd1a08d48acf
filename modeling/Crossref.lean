import Crossref.Main
import Crossref.Proofs.CommandLine.Caret
import Crossref.Proofs.CommandLine.Logged
import Crossref.Proofs.Config.Directories
import Crossref.Proofs.Config.Roots
import Crossref.Proofs.Discovery
import Crossref.Proofs.Index.Handles
import Crossref.Proofs.Indexing
import Crossref.Proofs.Kotlin.Scopes
import Crossref.Proofs.Payload.Carets
import Crossref.Proofs.Payload.Dependencies
import Crossref.Proofs.Payload.History
import Crossref.Proofs.Report.Delimiter
import Crossref.Proofs.Resolve.Extensions
import Crossref.Proofs.Resolve.Overloads
import Crossref.Proofs.Resolve.Scopes
import Crossref.Proofs.Resolve.Staleness
import Crossref.Proofs.Resolve.This
import Crossref.Proofs.Resolve.Types
import Crossref.Proofs.Slice.Compiled
import Crossref.Proofs.Slice.Naming
import Crossref.Proofs.SourceFile.Carets
import Crossref.Proofs.Usage.Blanked.Collected
import Crossref.Proofs.Usage.Cancellation
import Crossref.Proofs.Usage.Descent
import Crossref.Proofs.Usage.Extensions
import Crossref.Proofs.Usage.Failures
import Crossref.Proofs.Usage.Filtered
import Crossref.Proofs.Usage.Kinds
import Crossref.Proofs.Usage.Once
import Crossref.Proofs.Usage.Reordered
