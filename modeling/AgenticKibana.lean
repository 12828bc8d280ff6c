import AgenticKibana.Baseline.Digest
import AgenticKibana.Baseline.Eviction
import AgenticKibana.Batch.ExactlyOnce
import AgenticKibana.Breaker.Trips
import AgenticKibana.Budget.Gate
import AgenticKibana.Campaigns.Identity
import AgenticKibana.CaseIds.Counter
import AgenticKibana.Cases.WindowAgreement
import AgenticKibana.Chat.ContinuedText
import AgenticKibana.Chat.FoldedSummaries
import AgenticKibana.Chat.LiveAnswer
import AgenticKibana.Conversations.AnsweredOnce
import AgenticKibana.Correlation.Linking
import AgenticKibana.Dispositions.CloseAuthority
import AgenticKibana.Gates.InvestigationGate
import AgenticKibana.Gates.MutationGate
import AgenticKibana.Ingest.Explanation
import AgenticKibana.Jobs.Effects
import AgenticKibana.Jobs.History
import AgenticKibana.Knowledge.Chunking
import AgenticKibana.Ledger.OneRow
import AgenticKibana.Precedent.Selection
import AgenticKibana.Proposals.Queue
import AgenticKibana.Rbac.Resolution
import AgenticKibana.Receivers.FilePasses
import AgenticKibana.Receivers.GroupQueues
import AgenticKibana.Receivers.Payloads
import AgenticKibana.Receivers.StructuredDataRoundTrip
import AgenticKibana.Receivers.SyslogFraming
import AgenticKibana.Sessions.RememberPolicy
import AgenticKibana.Sessions.Revocation
import AgenticKibana.Taint.Ledger
import AgenticKibana.Updater.Switching
import AgenticKibana.Users.AdminChanges
import AgenticKibana.Windows.Alignment
import AgenticKibana.Windows.BucketKeys
import AgenticKibana.Windows.Totality
