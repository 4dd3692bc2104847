import NixSecrets.ApprovalExclusive
import NixSecrets.ApprovalFinal
import NixSecrets.ApprovalQueue
import NixSecrets.OperatorPrompt
import NixSecrets.OperatorAnswer
import NixSecrets.DeployAtomic
import NixSecrets.VersionOverflow
import NixSecrets.DeployCommit
import NixSecrets.ReceiverLeftOut
import NixSecrets.FeedAgreement
import NixSecrets.StepRefusal
import NixSecrets.ProcedureOrder
import NixSecrets.ProfileRun
import NixSecrets.StoreListing
import NixSecrets.SshAuth
import NixSecrets.DerivedVersion
import NixSecrets.SigningScopes
import NixSecrets.SecretBinding
import NixSecrets.HostKeyApproval
import NixSecrets.BatchPartition
import NixSecrets.ServerSafety
import NixSecrets.DeploymentAgreement
import NixSecrets.GenerationConverges
import NixSecrets.SchemaAnswers
import NixSecrets.DeployableSchema
import NixSecrets.DefaultProvenance
import NixSecrets.HostKeyRecorded
import NixSecrets.AsyncWriterRun
import NixSecrets.PromptFocus
import NixSecrets.ProcedureGone
import NixSecrets.FailureKept
import NixSecrets.BootstrapRuns
import NixSecrets.DeployChanges
import NixSecrets.HeaderExact
import NixSecrets.BatchAgreement
import NixSecrets.ClaimReleased
import NixSecrets.GrantsReleased
import NixSecrets.SelectionKept
import NixSecrets.EntryKept
import NixSecrets.ConfirmationText
import NixSecrets.WaiterProgress
import NixSecrets.DerivedFraming
import NixSecrets.SecretExport
import NixSecrets.ReviewSeen
import NixSecrets.DeploymentAnswer
import NixSecrets.Framing
import NixSecrets.OnePassword
import NixSecrets.SigningCoverage
import NixSecrets.AddressText
import NixSecrets.HostKeyPinned
import NixSecrets.KnownHostsExact
import NixSecrets.GeneratedSecrets
import NixSecrets.MessageTransport
import NixSecrets.TreeFolded
import NixSecrets.WalkersAgree
import NixSecrets.ReplacementsSeen
import NixSecrets.PlanExact
import NixSecrets.BackendLease
import NixSecrets.Quarantine
import NixSecrets.DesktopBus
import NixSecrets.LoginAgent
import NixSecrets.BackgroundView
