import Frostvault.Aggregates.RebuildRequests
import Frostvault.Observation.Compensation
import Frostvault.Upload.Sends
import Frostvault.Leases.PurgeGroups
import Frostvault.Cleanup.Exactness
import Frostvault.Leases.Finality
import Frostvault.LocalFiles.Concurrent
import Frostvault.Observation.ActiveIdentities
import Frostvault.Deletion.RootRelease
import Frostvault.Upload.Evidence
import Frostvault.Watcher.Handoff
import Frostvault.Observation.RepeatedPaths
import Frostvault.Provider.Pages
import Frostvault.Provider.MultipartCopy
import Frostvault.VaultRoots.RemountScans
import Frostvault.Upload.SnapshotLayout
import Frostvault.Remediation.Exclusion
import Frostvault.CloudScan.LossReports
import Frostvault.Leases.FairSelection
import Frostvault.Upload.Receipts
import Frostvault.Events.AheadCursor
import Frostvault.Paths.RenameCandidates
import Frostvault.Aggregates.Handoff
import Frostvault.Paths.ObjectKeys
import Frostvault.Aggregates.Browse
import Frostvault.Deletion.PurgeSession
import Frostvault.Access.ForwardedFor
import Frostvault.Access.Backoff
import Frostvault.Access.SessionWindow
import Frostvault.Lifecycle.Ownership
import Frostvault.VaultRoots.MountRoundTrip
import Frostvault.Notifications.UnreadableFiles
import Frostvault.Backups.Retention
import Frostvault.Notifications.Episodes
import Frostvault.VaultRoots.FolderPicker
import Frostvault.Remediation.FairSweep
import Frostvault.Preflight.Gate
import Frostvault.Events.Hub
