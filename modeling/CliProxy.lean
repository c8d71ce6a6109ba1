import CliProxy.Lib.Machine
import CliProxy.Auth.SessionManager
import CliProxy.Auth.SessionSlots
import CliProxy.Auth.SessionCalls
import CliProxy.Auth.SessionAuthority
import CliProxy.Auth.SessionSubmission
import CliProxy.Lib.Prog
import CliProxy.Provision.Records
import CliProxy.Provision.SkillsDir
import CliProxy.Provision.SkillsDirSafety
import CliProxy.Provision.Installer
import CliProxy.Provision.ConfigDir
import CliProxy.Provision.ConfigInstaller
import CliProxy.Provision.ConfigJournal
import CliProxy.Provision.ConfigRecovery
import CliProxy.Provision.ConfigErasure
import CliProxy.Isolation.LinuxUserProvisioner
import CliProxy.Provision.SyncQueue
import CliProxy.Provision.SyncQueueChain
import CliProxy.Provision.SyncQueueLoops
import CliProxy.Provision.SyncQueueRuns
import CliProxy.Provision.SyncCoalescing
import CliProxy.Provision.InstallerSafety
import CliProxy.Auth.SessionAuthority
import CliProxy.Isolation.UserMapping
import CliProxy.Isolation.StableMapping
import CliProxy.Adapter.PaperclipRunner
import CliProxy.Adapter.RunProtocol
import CliProxy.Server.ChatCompletions
import CliProxy.Server.StreamedAnswer
import CliProxy.Server.CompletedAnswer
import CliProxy.Server.ChatOutcome
import CliProxy.Server.ChatAgreement
import CliProxy.Isolation.WorkerProtocol
import CliProxy.Isolation.IssuedBindings
import CliProxy.Isolation.WorkerProxy
import CliProxy.Isolation.BindingChanges
import CliProxy.Isolation.NotificationOrder
import CliProxy.Isolation.BindingRestore
import CliProxy.Isolation.BindingFate
import CliProxy.Usage.Billing
import CliProxy.Server.Health
import CliProxy.Usage.Tracker
import CliProxy.Adapter.Ndjson
import CliProxy.Auth.TerminalScrape
import CliProxy.Auth.ClaudeSetupToken
import CliProxy.Auth.CodexDeviceAuth
import CliProxy.Auth.ApiKeyLogin
import CliProxy.Auth.CancellationLatch
import CliProxy.Auth.ScrapedOutput
import CliProxy.Auth.SplitOutput
import CliProxy.Lib.Percent
import CliProxy.Lib.Url
import CliProxy.Lib.UrlRoundTrip
import CliProxy.Auth.GatewayBaseUrl
import CliProxy.Adapter.ImageLink
import CliProxy.Adapter.ImageMaterializer
import CliProxy.Adapter.ImageExactness
import CliProxy.Provision.ArchiveWrapper
import CliProxy.Adapter.OpenaiToCli
import CliProxy.Adapter.JsonExtraction
import CliProxy.Provision.GitSource
import CliProxy.Provision.Manifest
import CliProxy.Provision.RuntimeSettings
import CliProxy.Provision.AppliedSettings
import CliProxy.Provision.ManifestGrammar
import CliProxy.Isolation.RequestIdentity
import CliProxy.Adapter.JsonParse
import CliProxy.Lib.Utf8
import CliProxy.Lib.Base64Url
import CliProxy.Provision.RegisteredManifest
import CliProxy.Usage.SavedHistory
import CliProxy.Lib.FileTree
import CliProxy.Provision.DiscoveryRoots
import CliProxy.Provision.DiscoveryRootsApart
import CliProxy.Provision.LocalManifestKey
import CliProxy.Provision.AnchoredEntries
import CliProxy.Adapter.CodexCustomHome
import CliProxy.Adapter.ToolEventText
import CliProxy.Adapter.JsonRecord
import CliProxy.Lib.PosixPath
import CliProxy.Provision.Lockfile
import CliProxy.Provision.LockfileRoundTrip
import CliProxy.Provision.LockfileSaves
