import DBusLog.Lib.Runs
import DBusLog.Lib.BoundedRing
import DBusLog.Lib.LittleEndian
import DBusLog.Protocol
import DBusLog.Sender.Model
import DBusLog.Sender.Recursion
import DBusLog.Sender.System
import DBusLog.Sender.Watches
import DBusLog.Sender.Progress
import DBusLog.Sender.Packet
import DBusLog.Sender.Stream
import DBusLog.Sender.Interleaving
import DBusLog.Receiver.Feed
import DBusLog.Receiver.Read
import DBusLog.Receiver.Packets
import DBusLog.Receiver.RoundTrip
import DBusLog.Core.Model
import DBusLog.Core.Operations
import DBusLog.Core.System
import DBusLog.Core.Broadcast
import DBusLog.Lib.Gaps
import DBusLog.Receiver.Skips
import DBusLog.Sender.Numbering
import DBusLog.Core.Loss
import DBusLog.Server.Dbus
import DBusLog.Server.Gio
import DBusLog.Server.Authorization
import DBusLog.Core.Settings
import DBusLog.Server.Agreement
import DBusLog.Server.Twin
import DBusLog.Client.Model
import DBusLog.Lib.ChangeLog
import DBusLog.Core.Categories
import DBusLog.Core.Identity
import DBusLog.Server.Journal
import DBusLog.Client.Replica
import DBusLog.Client.Mirror
import DBusLog.Core.Handlers
import DBusLog.Server.Sessions
import DBusLog.Server.Readers
import DBusLog.Server.NameWatches
import DBusLog.Server.Neighbours
import DBusLog.Client.Connection
import DBusLog.Client.Attempts
import DBusLog.Client.Capture
import DBusLog.Core.Chronicle
import DBusLog.Core.Levels
import DBusLog.Server.Announcements
import DBusLog.Client.Holdings
import DBusLog.Client.LevelMirror
import DBusLog.Client.Attribution
import DBusLog.Receiver.Boundaries
import DBusLog.Receiver.Framing
import DBusLog.Receiver.Buffers
import DBusLog.Receiver.Texts
import DBusLog.Core.SkipCounts
import DBusLog.Core.Gating
import DBusLog.Client.AddedIndex
import DBusLog.Core.PacketSizes
import DBusLog.Sender.Calls
import DBusLog.Sender.Overflow
import DBusLog.Sender.Pings
import DBusLog.Lib.Marking
import DBusLog.Sender.CallCount
import DBusLog.Core.Enabling
import DBusLog.Server.Enabling
import DBusLog.Receiver.Nesting
import DBusLog.Sender.Descriptors
import DBusLog.Server.Descriptors
import DBusLog.Core.Defaults
import DBusLog.Server.Defaults
import DBusLog.Tool.Model
import DBusLog.Tool.Mirror
import DBusLog.Tool.Reset
import DBusLog.Lib.Projections
import DBusLog.Core.Projection
import DBusLog.Core.Peers
import DBusLog.Core.Lossless
import DBusLog.Receiver.Truncated
import DBusLog.Sender.WireSafety
import DBusLog.Sender.Atomicity
import DBusLog.Sender.Draining
import DBusLog.Lib.RefMemory
import DBusLog.Sender.References
import DBusLog.Tool.Process
import DBusLog.Tool.Exit
import DBusLog.Lib.Designation
import DBusLog.Client.Contexts
import DBusLog.Lib.RefAccess
import DBusLog.Client.Lifetime
import DBusLog.Tool.Whole
import DBusLog.Client.References
import DBusLog.Receiver.Closing
import DBusLog.Lib.RefArrays
import DBusLog.Core.References
import DBusLog.Core.Reentrancy
import DBusLog.Core.Frames
import DBusLog.Server.Reentrancy
import DBusLog.Server.NestedMirror
import DBusLog.Server.AtOnce
