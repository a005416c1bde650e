import Sponge.Lib.Reach
import Sponge.Lib.Tiling
import Sponge.Lib.Fifo
import Sponge.Lib.Codec
import Sponge.Lib.OnesComplement
import Sponge.Lib.Pieces
import Sponge.Lib.BoundedQueue
import Sponge.Lib.TimedLog
import Sponge.Lib.Cursor
import Sponge.Lib.Except
import Sponge.ByteStream
import Sponge.ByteStream.Runs
import Sponge.Reassembler.Exact
import Sponge.Reassembler.Iterators
import Sponge.Reassembler.Handover
import Sponge.Receiver.Window
import Sponge.Sender.Timing
import Sponge.Sender.Filling
import Sponge.Sender.StaleAcks
import Sponge.Link.FlowControl
import Sponge.Connection.CleanClose
import Sponge.Connection.Silence
import Sponge.Connection.Reply
import Sponge.Connection.TimeWait
import Sponge.Connection.Resets
import Sponge.Connection.Edge
import Sponge.Connection.Outgoing
import Sponge.Connection.TCPState
import Sponge.Wire.Adapter
import Sponge.Wire.WellFormed
import Sponge.Wire.ParserCalls
import Sponge.Network.Pending
import Sponge.Network.Flush
import Sponge.Network.History
import Sponge.Network.Resolution
import Sponge.Network.Forwarding
import Sponge.Network.LongestPrefix
import Sponge.Network.Contents
import Sponge.Socket.FileDescriptor
import Sponge.Socket.EventLoop
import Sponge.Socket.Adapters
import Sponge.Socket.Carriers
import Sponge.Socket.Model
import Sponge.Socket.Calls
import Sponge.Socket.Loop
import Sponge.Socket.EndToEnd
import Sponge.Link.Progress
