import WebSSH.Lib.System
import WebSSH.Lib.Dict
import WebSSH.Flow.Controller
import WebSSH.Flow.Accounting
import WebSSH.Barrier.Invariant
import WebSSH.Barrier.Steps
import WebSSH.Barrier.Deadlock
import WebSSH.Barrier.Reach
import WebSSH.Lib.Python
import WebSSH.Quota.Manager
import WebSSH.Transfer.Manager
import WebSSH.Transfer.Invariant
import WebSSH.Transfer.Lifecycle
import WebSSH.Lib.HoldRegistry
import WebSSH.Pool.Connections
import WebSSH.Pool.Holds
import WebSSH.Client.Invariant
import WebSSH.Client.Queue
import WebSSH.Lib.Faults
import WebSSH.Lib.FileTree
import WebSSH.Backup.Archive
import WebSSH.Backup.Restore
import WebSSH.Backup.Rollback
import WebSSH.Backup.RoundTrip
import WebSSH.Barrier.Isolation
import WebSSH.Lib.Utf8
import WebSSH.Terminal.Output
import WebSSH.Terminal.Chunks
import WebSSH.Attempt.Model
import WebSSH.Client.Cancellation
import WebSSH.Attempt.Ownership
import WebSSH.Runtime.Lifecycle
import WebSSH.Runtime.Shutdown
import WebSSH.Lib.Sequence
import WebSSH.Lib.Utf16
import WebSSH.Terminal.Restore
import WebSSH.Terminal.ExactlyOnce
import WebSSH.Input.Transport
import WebSSH.Input.Order
import WebSSH.StepUp.Authorization
import WebSSH.StepUp.Sessions
import WebSSH.Directory.Listing
import WebSSH.Directory.Snapshots
import WebSSH.Directory.Local
import WebSSH.Directory.Invariant
import WebSSH.Directory.Steps
import WebSSH.Directory.Replies
import WebSSH.Directory.Pagination
import WebSSH.Admin.Actions
import WebSSH.Auth.Invalidation
import WebSSH.Ldap.FailClosed
import WebSSH.Connect.Lifecycle
import WebSSH.Connect.Announcements
import WebSSH.Revocation.Access
import WebSSH.Revocation.NoAccess
import WebSSH.Lib.Program
import WebSSH.Smb.Replace
import WebSSH.Smb.Recovery
import WebSSH.Keys.Manager
import WebSSH.Keys.Invariant
import WebSSH.Keys.Loading
import WebSSH.Keys.Changes
import WebSSH.Keys.Deletion
import WebSSH.Keys.Consistency
import WebSSH.Github.Username
import WebSSH.Lib.Words
import WebSSH.Tailscale.Route
import WebSSH.Commands.Chaining
import WebSSH.Commands.Sets
import WebSSH.Commands.Launch
import WebSSH.Commands.Sudo
import WebSSH.Passkey.Counters
import WebSSH.Notepad.Controller
import WebSSH.Notepad.Saved
import WebSSH.Mfa.Factors
import WebSSH.Lib.Text
import WebSSH.Mfa.LastFactor
import WebSSH.Diagnostics.Stats
import WebSSH.Diagnostics.Processes
import WebSSH.Maintenance.Restore
import WebSSH.Maintenance.Logins
import WebSSH.Lib.Window
import WebSSH.Limits.RateLimiter
import WebSSH.Lib.TokenBucket
import WebSSH.Limits.InputBudget
import WebSSH.Files.Preview
import WebSSH.Files.Editor
import WebSSH.Backup.Targets
import WebSSH.Maintenance.Status
import WebSSH.HostKeys.KnownHosts
import WebSSH.HostKeys.Adding
import WebSSH.HostKeys.Layered
import WebSSH.Limits.Backends
import WebSSH.Lib.Ascending
import WebSSH.Mfa.Totp
import WebSSH.Smb.Paths
import WebSSH.Lib.RLock
import WebSSH.Quota.Accounting
import WebSSH.Sockets.Admission
import WebSSH.Lib.LockOrder
import WebSSH.Lib.RefTable
import WebSSH.Transfer.SourceLocks
import WebSSH.Transfer.SourceSections
import WebSSH.Smb.VerifiedOpen
import WebSSH.Smb.Handles
import WebSSH.Smb.Walk
import WebSSH.Smb.AtomicWriter
import WebSSH.Lib.Calls
import WebSSH.Smb.AtomicWrites
import WebSSH.Audit.Lines
import WebSSH.Audit.Redaction
import WebSSH.Audit.Noninterference
import WebSSH.Smb.Preview
import WebSSH.Commands.Reductions
import WebSSH.Lib.Quoting
import WebSSH.Terminal.Quoting
import WebSSH.Terminal.DirectorySync
import WebSSH.Terminal.Navigation
import WebSSH.Attempt.Gateway
import WebSSH.Attempt.Interaction
import WebSSH.Rotation.Secrets
import WebSSH.Rotation.Stores
import WebSSH.Rotation.AllOrNothing
import WebSSH.Lib.Wire
import WebSSH.Sftp.Messages
import WebSSH.Sftp.Enumeration
import WebSSH.Sftp.Bounded
import WebSSH.Sftp.Listing
import WebSSH.Sftp.Drawing
import WebSSH.Sftp.Tree
import WebSSH.Sftp.Archive
