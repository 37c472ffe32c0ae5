import DockLattice.Wal.Deletion
import DockLattice.Wal.Damage
import DockLattice.Wal.Pages
import DockLattice.Agent.Inventory
import DockLattice.Agent.Mounts
import DockLattice.Compose.Gaps
import DockLattice.Compose.OwnWrites
import DockLattice.Operation.Ring
import DockLattice.Operation.Relay
import DockLattice.Operation.Once
import DockLattice.Operation.Shown
import DockLattice.Audit.Replay
import DockLattice.Audit.Codec
import DockLattice.Store.Explain
import DockLattice.Server.Monotone
import DockLattice.Server.Recovery
import DockLattice.Server.AuditPage
import DockLattice.Server.ProjectNames
import DockLattice.Files.Paths
import DockLattice.Files.LineEndings
import DockLattice.Session.Order
import DockLattice.Session.Admission
import DockLattice.Identity.Revoked
import DockLattice.Identity.Archives
import DockLattice.Metrics.Reasons
import DockLattice.Agent.DiskBudget
import DockLattice.Live.Stats
import DockLattice.Live.Context
import DockLattice.Compose.Drift
