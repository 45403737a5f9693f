import Valet.Library.Halt
import Valet.Library.Runs
import Valet.Library.Channel
import Valet.Library.Tally
import Valet.Library.Census
import Valet.Library.MarkedSearch
import Valet.Library.ByteSwap
import Valet.Bd.AlfQueue
import Valet.Bd.PageStore
import Valet.Bd.DataPath
import Valet.Bd.DataSteps
import Valet.Bd.Pinning
import Valet.Bd.Reclaim
import Valet.Bd.Layout
import Valet.Bd.Ownership
import Valet.Bd.Coherence
import Valet.Wire.Message
import Valet.Bd.ControlBlock
import Valet.Bd.Migration
import Valet.Bd.MigrationRound
import Valet.Bd.Control
import Valet.Daemon.Regions
import Valet.Daemon.Accounting
import Valet.Daemon.OldestRegion
import Valet.Daemon.Eviction
import Valet.Wire.Descriptors
import Valet.Bd.WriteIndex
import Valet.Bd.Aliasing
import Valet.Bd.BlockTables
import Valet.Bd.Coalescing
import Valet.Bd.Disconnect
import Valet.Bd.DisconnectTables
import Valet.Bd.Drain
import Valet.Bd.EvictSlots
import Valet.Bd.FailedPosts
import Valet.Bd.FailedWrite
import Valet.Bd.NodeSearch
import Valet.Bd.BestNode
import Valet.Bd.OnlyCopy
import Valet.Bd.ReadRequests
import Valet.Bd.MissingEntry
import Valet.Bd.PoolResizing
import Valet.Bd.UsedPages
import Valet.Bd.TearDown
import Valet.Library.Text
import Valet.Wire.PortalList
import Valet.Wire.PortalBounds
import Valet.Bd.RacingInserts
import Valet.Bd.PageOwners
import Valet.Bd.ReadDrain
import Valet.Bd.ReplicaDone
import Valet.Bd.ReplicaProtocol
import Valet.Bd.RoundFrame
import Valet.Bd.Splitting
import Valet.Daemon.MigrationStart
import Valet.Bd.BlockBitmap
import Valet.Bd.BlockCopy
import Valet.Bd.ConcurrentProgress
import Valet.Daemon.RegionLives
import Valet.Bd.BorrowedTables
import Valet.System.Delivery
import Valet.System.Handshake
import Valet.System.Tables
import Valet.Bd.RemoteKeys
import Valet.System.Isolation
