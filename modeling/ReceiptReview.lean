import ReceiptReview.Results.AccessPolicy
import ReceiptReview.Results.Administrators
import ReceiptReview.Results.Approval
import ReceiptReview.Results.AuditReplay
import ReceiptReview.Results.Bootstrap
import ReceiptReview.Results.BusinessNumber
import ReceiptReview.Results.Capacity
import ReceiptReview.Results.Coherence
import ReceiptReview.Results.Convergence
import ReceiptReview.Results.Disclosure
import ReceiptReview.Results.Duplicates
import ReceiptReview.Results.Evidence
import ReceiptReview.Results.FailedJobs
import ReceiptReview.Results.FastPath
import ReceiptReview.Results.Finality
import ReceiptReview.Results.FirstCome
import ReceiptReview.Results.FourEyes
import ReceiptReview.Results.Gates
import ReceiptReview.Results.Idempotency
import ReceiptReview.Results.Images
import ReceiptReview.Results.Intake
import ReceiptReview.Results.Isolation
import ReceiptReview.Results.Lease
import ReceiptReview.Results.Listing
import ReceiptReview.Results.NoDeadEnd
import ReceiptReview.Results.Ownership
import ReceiptReview.Results.PageCommands
import ReceiptReview.Results.PagePolicy
import ReceiptReview.Results.PageSession
import ReceiptReview.Results.PageUploads
import ReceiptReview.Results.Provenance
import ReceiptReview.Results.ProviderCalls
import ReceiptReview.Results.Rebuild
import ReceiptReview.Results.Representation
import ReceiptReview.Results.Resubmission
import ReceiptReview.Results.Retries
import ReceiptReview.Results.RetryLog
import ReceiptReview.Results.ReviewQueue
import ReceiptReview.Results.Revocation
import ReceiptReview.Results.Sequences
import ReceiptReview.Results.SetupTokens
import ReceiptReview.Results.Versions
import ReceiptReview.Results.ShownHistory
