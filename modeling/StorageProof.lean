import StorageProof.Base64.Lemmas
import StorageProof.Call.Cancellation
import StorageProof.Call.Script
import StorageProof.Main
import StorageProof.Proofs.Agreement
import StorageProof.Proofs.Base64
import StorageProof.Proofs.Identifier
import StorageProof.Proofs.ProofBlob
import StorageProof.Proofs.Ledger.Answer
import StorageProof.Proofs.Ledger.Book
import StorageProof.Proofs.Call.Exchange
import StorageProof.Proofs.Call.Plan
import StorageProof.Proofs.Call.Acceptance
import StorageProof.Proofs.Call.Making
import StorageProof.Proofs.CommandLine.Identifiers
import StorageProof.Proofs.Files.FileSystem
import StorageProof.Proofs.Flow.Job
import StorageProof.Proofs.Flow.StageOrder
import StorageProof.Proofs.Flow.CourseCalls
import StorageProof.Proofs.Flow.Composition
import StorageProof.Proofs.Text.Blank
import StorageProof.Proofs.Text.Utf8
import StorageProof.Proofs.Json.Document
import StorageProof.Proofs.Json.Space
import StorageProof.Proofs.Json.Grammar
import StorageProof.Proofs.Agreement.Presentation
import StorageProof.Proofs.Files.Removal
import StorageProof.Proofs.Flow.Ending
import StorageProof.Proofs.Flow.Transactions
import StorageProof.Proofs.Call.Success
import StorageProof.Proofs.Flow.Verification
import StorageProof.Proofs.Flow.Reports
import StorageProof.Proofs.Flow.Freshness
import StorageProof.Proofs.Process.Happenings
import StorageProof.Proofs.Process.Watching
import StorageProof.Proofs.Ledger.Wire
import StorageProof.Proofs.Files.Locks
import StorageProof.Proofs.Flow.Steps
import StorageProof.Proofs.Flow.Exclusion
import StorageProof.Proofs.Files.Route
import StorageProof.Proofs.Files.Alike
import StorageProof.Proofs.Flow.Leftovers
import StorageProof.Proofs.Call.Cancellation
import StorageProof.Proofs.Process.Turn
import StorageProof.Proofs.Flow.Cancellation
import StorageProof.Proofs.Text.Lines
import StorageProof.Proofs.Flow.Verdict
import StorageProof.Proofs.Json.Canonical
import StorageProof.Proofs.Agreement.Binding
import StorageProof.Proofs.Ledger.Questions
import StorageProof.Proofs.Process.Success
import StorageProof.Proofs.Flow.Launches
import StorageProof.Proofs.CommandLine.ExitStatus
import StorageProof.Proofs.Presentation
import StorageProof.Proofs.Ledger.Envelope
import StorageProof.Proofs.Call.Isolation
import StorageProof.Proofs.Files.Contents
import StorageProof.Proofs.Flow.Parameters
import StorageProof.Proofs.Flow.Setup
import StorageProof.Proofs.Call.Families
import StorageProof.Proofs.Json.Escapes
import StorageProof.Proofs.Toml.Document
import StorageProof.Proofs.Flow.SettingsText
import StorageProof.Proofs.Files.Footprint
import StorageProof.Proofs.Flow.Footprint
