import SynologyFilestation.Connect.Chain
import SynologyFilestation.Connect.Reconsider
import SynologyFilestation.Connect.SharedTunnel
import SynologyFilestation.Connect.Tunnel
import SynologyFilestation.Core.Breaker
import SynologyFilestation.Core.Error
import SynologyFilestation.Core.FullFolders
import SynologyFilestation.Core.HashTask
import SynologyFilestation.Core.HttpDownload
import SynologyFilestation.Core.LocalDownload
import SynologyFilestation.Core.LostAnswer
import SynologyFilestation.Core.Metadata
import SynologyFilestation.Core.Moves
import SynologyFilestation.Core.Namespace
import SynologyFilestation.Core.OverwrittenFolders
import SynologyFilestation.Core.OwnCollision
import SynologyFilestation.Core.Paging
import SynologyFilestation.Core.Path
import SynologyFilestation.Core.Redact
import SynologyFilestation.Core.Removals
import SynologyFilestation.Core.ReplaceFile
import SynologyFilestation.Core.SessionAuth
import SynologyFilestation.Core.SharedMove
import SynologyFilestation.Core.SliceCollisions
import SynologyFilestation.Core.SliceSpares
import SynologyFilestation.Core.SliceUpload
import SynologyFilestation.Core.SliceVerified
import SynologyFilestation.Core.Throttle
import SynologyFilestation.Core.Transport
import SynologyFilestation.Core.Trials
import SynologyFilestation.Core.UndoneMove
import SynologyFilestation.Core.Upload
import SynologyFilestation.Core.UploadFromPath
import SynologyFilestation.Fuse.Attributes
import SynologyFilestation.Fuse.BlockClaims
import SynologyFilestation.Fuse.Callbacks
import SynologyFilestation.Fuse.Coherence
import SynologyFilestation.Fuse.CopyMove
import SynologyFilestation.Fuse.Destructive
import SynologyFilestation.Fuse.Digest
import SynologyFilestation.Fuse.Durability
import SynologyFilestation.Fuse.Flights
import SynologyFilestation.Fuse.Follow
import SynologyFilestation.Fuse.Forgetting
import SynologyFilestation.Fuse.Handle
import SynologyFilestation.Fuse.HashWaiters
import SynologyFilestation.Fuse.Inodes
import SynologyFilestation.Fuse.LegRuns
import SynologyFilestation.Fuse.Legs
import SynologyFilestation.Fuse.Listing
import SynologyFilestation.Fuse.LockOrder
import SynologyFilestation.Fuse.LogFile
import SynologyFilestation.Fuse.LogPath
import SynologyFilestation.Fuse.Numbers
import SynologyFilestation.Fuse.Passes
import SynologyFilestation.Fuse.ReadAhead
import SynologyFilestation.Fuse.ReadBack
import SynologyFilestation.Fuse.ReadCache
import SynologyFilestation.Fuse.ReadRange
import SynologyFilestation.Fuse.ReadTurns
import SynologyFilestation.Fuse.RenameInPlace
import SynologyFilestation.Fuse.Speculation
import SynologyFilestation.Fuse.SpeculationAccounts
import SynologyFilestation.Fuse.SpeculativeClaims
import SynologyFilestation.Fuse.Spill
import SynologyFilestation.Fuse.SpillArray
import SynologyFilestation.Fuse.Transfers
import SynologyFilestation.Fuse.Truncation
import SynologyFilestation.Fuse.WalkLog
import SynologyFilestation.Fuse.Walks
import SynologyFilestation.Fuse.Webdav
import SynologyFilestation.Fuse.WinContext
import SynologyFilestation.Fuse.WinShared
import SynologyFilestation.Fuse.Winfs
import SynologyFilestation.Library.Alternating
import SynologyFilestation.Library.CharSlices
import SynologyFilestation.Library.Custody
import SynologyFilestation.Library.Drain
import SynologyFilestation.Library.Earliest
import SynologyFilestation.Library.Edits
import SynologyFilestation.Library.Fallible
import SynologyFilestation.Library.FileTree
import SynologyFilestation.Library.Framing
import SynologyFilestation.Library.Generations
import SynologyFilestation.Library.Joining
import SynologyFilestation.Library.Lines
import SynologyFilestation.Library.LinkTree
import SynologyFilestation.Library.Log
import SynologyFilestation.Library.OrderedMap
import SynologyFilestation.Library.Patch
import SynologyFilestation.Library.Pieces
import SynologyFilestation.Library.Ranks
import SynologyFilestation.Library.ReadExact
import SynologyFilestation.Library.Registry
import SynologyFilestation.Library.Rotation
import SynologyFilestation.Library.Routines
import SynologyFilestation.Library.SeenWindow
import SynologyFilestation.Library.Segment
import SynologyFilestation.Library.Slots
import SynologyFilestation.Library.Table
import SynologyFilestation.Library.Text
import SynologyFilestation.Library.Transition
import SynologyFilestation.Library.TreeView
import SynologyFilestation.Library.Wire
import SynologyFilestation.Openvpn.AuthFailure
import SynologyFilestation.Openvpn.Calls
import SynologyFilestation.Openvpn.Channel
import SynologyFilestation.Openvpn.Data
import SynologyFilestation.Openvpn.DataLink
import SynologyFilestation.Openvpn.Deadlines
import SynologyFilestation.Openvpn.Driver
import SynologyFilestation.Openvpn.DriverRuns
import SynologyFilestation.Openvpn.DriverTime
import SynologyFilestation.Openvpn.Flush
import SynologyFilestation.Openvpn.Framing
import SynologyFilestation.Openvpn.Generations
import SynologyFilestation.Openvpn.Ifconfig
import SynologyFilestation.Openvpn.KeyFile
import SynologyFilestation.Openvpn.KeyMethod
import SynologyFilestation.Openvpn.Mux
import SynologyFilestation.Openvpn.Outbox
import SynologyFilestation.Openvpn.OwedAcks
import SynologyFilestation.Openvpn.Packet
import SynologyFilestation.Openvpn.Polling
import SynologyFilestation.Openvpn.Profile
import SynologyFilestation.Openvpn.Push
import SynologyFilestation.Openvpn.Reliable
import SynologyFilestation.Openvpn.ReliableLink
import SynologyFilestation.Openvpn.Replay
import SynologyFilestation.Openvpn.Routing
import SynologyFilestation.Openvpn.Session
import SynologyFilestation.Openvpn.Sizes
import SynologyFilestation.Openvpn.Stack
import SynologyFilestation.Openvpn.Timers
import SynologyFilestation.Openvpn.Tls
import SynologyFilestation.Openvpn.TlsAuth
import SynologyFilestation.Openvpn.Wakeup
import SynologyFilestation.Smb.AuthAccounts
import SynologyFilestation.Smb.AuthGate
import SynologyFilestation.Smb.ClosedWrite
import SynologyFilestation.Smb.Framing
import SynologyFilestation.Smb.HandleCache
import SynologyFilestation.Smb.HandleLedger
import SynologyFilestation.Smb.Moving
import SynologyFilestation.Smb.OneCall
import SynologyFilestation.Smb.PartFiles
import SynologyFilestation.Smb.Pool
import SynologyFilestation.Smb.PoolFailures
import SynologyFilestation.Smb.ReadHandles
import SynologyFilestation.Smb.Requests
import SynologyFilestation.Smb.Session
import SynologyFilestation.Smb.Stripes
import SynologyFilestation.Smb.WriteHandle
