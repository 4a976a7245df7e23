import Edda.Support.Worklist
import Edda.Support.NearestFirst
import Edda.Support.Runs
import Edda.Git.Object
import Edda.Git.PktLine
import Edda.Git.Gix
import Edda.Git.Refs
import Edda.Domain.BranchProtection
import Edda.Git.History
import Edda.Git.Hooks
import Edda.Git.HistoryPolicy
import Edda.Git.Quarantine
import Edda.Git.ReceivePack
import Edda.Git.ReceiveAtomicity
import Edda.Git.RefSerialization
import Edda.Git.ReportStatus
import Edda.Git.Connectivity
import Edda.Git.Truncation
import Edda.Git.Pack
import Edda.Git.ShallowFetch
import Edda.Git.Resolve
import Edda.Git.Transfer
import Edda.Git.ImportClosure
import Edda.Git.Diff
import Edda.Git.Search
import Edda.Git.Submodule
import Edda.Git.UploadPack
import Edda.Git.RequestFraming
import Edda.Domain.PullRequest
import Edda.Domain.Access
import Edda.Git.Merge
import Edda.Git.Rebase
import Edda.Git.RefNamespace
import Edda.Db.Database
import Edda.Auth.Authz
import Edda.Auth.PushGate
import Edda.Ssh.Channel
import Edda.App.PushTransports
import Edda.App.PullRequestStates
import Edda.App.PullRequestService
import Edda.App.ProtectedHistory
import Edda.Jobs.StaleReviews
import Edda.Support.Table
import Edda.Db.RepoNumber
import Edda.Db.JobRepo
import Edda.Jobs.Poller
import Edda.Jobs.Outbox
import Edda.Domain.Validation
import Edda.Support.FileTree
import Edda.Git.RepoDirectory
import Edda.App.RepositoryList
import Edda.App.RepositoryService
import Edda.App.AuthorisedWrites
import Edda.Domain.Event
import Edda.Jobs.Dispatcher
import Edda.Domain.Registration
import Edda.Auth.Accounts
import Edda.Auth.SecondFactorProofs
import Edda.Support.Tasks
import Edda.Auth.LoginThrottle
import Edda.App.ShownMergeability
import Edda.App.SignIn
import Edda.App.RepositoryRoutes
import Edda.App.PrivateRepositories
import Edda.App.AccountStatusGate
import Edda.App.SessionLifetime
import Edda.Auth.OwnerNames
import Edda.App.OrganizationOwners
import Edda.Auth.LinkTokens
import Edda.Auth.SecretBox
import Edda.Domain.LatestReviews
import Edda.App.IssueAssociations
import Edda.App.LfsLocks
import Edda.App.TeamAccess
import Edda.App.RuleSaves
import Edda.Db.IssueLabels
import Edda.Support.Disk
import Edda.App.ReleaseAssets
import Edda.Support.Wildcards
import Edda.Domain.BranchPatterns
import Edda.App.ThrottleKeys
import Edda.Auth.SecretBlobs
import Edda.Auth.TotpEnrolment
import Edda.Support.TextList
import Edda.Support.Utf8
import Edda.App.SecretKeys
import Edda.Cli.SecretRotation
import Edda.Cli.SecretKeys
import Edda.App.LfsStore
import Edda.Jobs.Scheduler
import Edda.Git.PackExact
import Edda.Git.FsckExact
import Edda.Git.HistoryExact
import Edda.Support.FirstRoute
import Edda.Git.DepthExact
import Edda.Git.MergeExact
import Edda.Support.Varint
import Edda.Git.Delta
import Edda.Git.PackFile
import Edda.Git.PackPanics
import Edda.Git.PktLineExact
import Edda.Git.ReceiveCommands
import Edda.Git.SideBand
import Edda.Domain.InstanceSettings
import Edda.App.InstanceSettings
import Edda.Domain.CodeOwners
import Edda.Jobs.Recipients
import Edda.Jobs.ReviewRequests
import Edda.Support.DirTree
import Edda.Git.Maintenance
import Edda.Support.Segments
import Edda.Support.Affixes
import Edda.Domain.Identities
import Edda.App.RepositoryPaths
import Edda.Ssh.Command
import Edda.Git.DiffLines
import Edda.Domain.BlockedAddresses
import Edda.App.WebhookTargets
import Edda.Support.Sections
import Edda.Git.Changelog
import Edda.Support.FirstHits
import Edda.Git.SearchOrder
import Edda.Domain.OwnerPatterns
import Edda.Support.CommonMark
import Edda.Domain.CrossReferences
import Edda.Domain.CodeReferences
import Edda.Support.Slices
import Edda.App.LinkedReferences
import Edda.Domain.Mentions
import Edda.Support.TextWords
import Edda.Git.UploadRequest
import Edda.Git.Advertisement
import Edda.Git.FetchRuns
import Edda.Support.Slots
import Edda.Ssh.Connection
import Edda.Support.TreeArchive
import Edda.Cli.DumpRestore
import Edda.Jobs.RetryBudget
import Edda.Support.TextCodecs
import Edda.Auth.PasskeyKeys
import Edda.Auth.Passkeys
import Edda.Auth.PasskeySignIns
