import Pskynet.Shared.Words
import Pskynet.Timer.Wheel
import Pskynet.Timer.Firing
import Pskynet.Timer.Order
import Pskynet.Timer.Run
import Pskynet.Server.Handle
import Pskynet.Server.Dispatch
import Pskynet.Server.Schedule
import Pskynet.Server.Delivery
import Pskynet.Server.Exit
import Pskynet.Netpack.Filter
import Pskynet.Netpack.Reassembly
import Pskynet.Harbor.Service
import Pskynet.Harbor.Limits
import Pskynet.Harbor.Link
import Pskynet.Harbor.Moves
import Pskynet.Harbor.Names
import Pskynet.Lua.Value
import Pskynet.Seri.Serialize
import Pskynet.Seri.Encoding
import Pskynet.Seri.RoundTrip
import Pskynet.Sproto.Schema
import Pskynet.Sproto.Encode
import Pskynet.Sproto.Decode
import Pskynet.Sproto.Integers
import Pskynet.Shared.Outcome
import Pskynet.Sproto.Conform
import Pskynet.Sproto.Wire
import Pskynet.Sproto.Packing
import Pskynet.Sproto.Unaligned
import Pskynet.Sproto.PackBound
import Pskynet.Sproto.Truncated
import Pskynet.Sproto.Bounds
import Pskynet.Sproto.RoundTrip
import Pskynet.Harbor.Traffic
import Pskynet.Harbor.Order
import Pskynet.Harbor.Down
import Pskynet.Server.Send
import Pskynet.Server.Assertions
import Pskynet.Server.GlobalQueue
import Pskynet.Server.Overflow
import Pskynet.Server.Stranded
import Pskynet.Skynet.Replies
import Pskynet.Skynet.Watching
import Pskynet.Skynet.Draining
import Pskynet.Skynet.Sleepers
import Pskynet.Skynet.Queue
import Pskynet.Server.Registration
import Pskynet.Server.Resolution
import Pskynet.Socket.Slot
import Pskynet.Socket.Server
import Pskynet.Socket.Moves
import Pskynet.Socket.Closing
import Pskynet.Socket.Reserve
import Pskynet.Socket.Events
import Pskynet.Socket.Writes
import Pskynet.Socket.HalfClose
import Pskynet.Socket.Commands
import Pskynet.Sproto.Pack
import Pskynet.Stm.Object
import Pskynet.Stm.Counts
import Pskynet.Multicast.Service
import Pskynet.Multicast.Packages
import Pskynet.Multicast.Remote
import Pskynet.Datacenter.Database
import Pskynet.Datacenter.WaitQueue
import Pskynet.Datacenter.Waiters
import Pskynet.Cluster.Packet
import Pskynet.ServiceMgr.Waitfor
import Pskynet.ServiceMgr.Forwarding
import Pskynet.Shared.ChainedHash
import Pskynet.Sharedata.Table
import Pskynet.Sharedata.Filling
import Pskynet.Sharedata.Refused
import Pskynet.Sharedata.Decide
import Pskynet.Sharedata.Reading
import Pskynet.Shared.Mailbox
import Pskynet.Sharedata.Service
import Pskynet.Sharedata.Clients
import Pskynet.Sharedata.Balance
import Pskynet.Sharedata.Alive
import Pskynet.Master.Names
import Pskynet.Msgserver.Requests
import Pskynet.Msgserver.Once
import Pskynet.Socketchannel.Channel
import Pskynet.Socketchannel.Waiters
import Pskynet.Socketchannel.Newest
import Pskynet.Socketchannel.Failures
import Pskynet.Socketchannel.Attached
import Pskynet.Socketchannel.Closing
import Pskynet.Socketchannel.Wakeful
import Pskynet.Socketchannel.Matching
import Pskynet.Sproto.Lengths
import Pskynet.Seri.Pointer
import Pskynet.Seri.Follows
import Pskynet.Seri.Scan
import Pskynet.Netpack.Writers
import Pskynet.Netpack.Connections
import Pskynet.Gateserver.Service
import Pskynet.Gateserver.Order
import Pskynet.Crypt.KeyExchange
import Pskynet.Shared.Feistel
import Pskynet.Crypt.Des
import Pskynet.Crypt.DesBlock
import Pskynet.Crypt.DesText
import Pskynet.Gate.Databuffer
import Pskynet.Gate.Service
import Pskynet.Gate.Dispatch
import Pskynet.Gate.Run
import Pskynet.Gate.Packets
import Pskynet.Harbor.Globalname
import Pskynet.Server.Ownership
import Pskynet.Harbor.Blocks
import Pskynet.Harbor.Releases
import Pskynet.Sharedata.Keys
import Pskynet.Buffer.Node
import Pskynet.Buffer.Pool
import Pskynet.Buffer.Chunks
import Pskynet.Buffer.Pop
import Pskynet.Buffer.Streams
import Pskynet.Shared.Rounding
import Pskynet.Shared.Search
import Pskynet.Buffer.Readline
import Pskynet.Shared.CInt
import Pskynet.Gate.Hashid
import Pskynet.Gate.HashidRuns
import Pskynet.Crypt.Hex
import Pskynet.Crypt.Padding
import Pskynet.Bson.Encode
import Pskynet.Bson.Decode
import Pskynet.Bson.Written
import Pskynet.Bson.Read
import Pskynet.Bson.RoundTrip
import Pskynet.Bson.Integers
import Pskynet.Bson.Storable
import Pskynet.Bson.Layout
import Pskynet.Bson.Replace
import Pskynet.Bson.Index
import Pskynet.Crypt.Base64
import Pskynet.Crypt.Base64Text
import Pskynet.Mongo.Reply
import Pskynet.Mysql.Quote
import Pskynet.Dns.Name
import Pskynet.Dns.Question
import Pskynet.Dns.Requests
import Pskynet.Http.Chunked
import Pskynet.Lua.Table
import Pskynet.Redis.Reply
import Pskynet.Msgserver.Retirement
import Pskynet.Netpack.Fifo
import Pskynet.Shared.Region
import Pskynet.Sproto.Reserve
import Pskynet.Sproto.Widening
import Pskynet.Timer.Clock
import Pskynet.Timer.Timeout
import Pskynet.Cluster.Service
import Pskynet.Bson.Overwrite
import Pskynet.Bson.Replaced
import Pskynet.Bson.Safety
import Pskynet.Cslave.Ready
import Pskynet.Crypt.HmacSha1
import Pskynet.Launcher.Outcome
import Pskynet.Loginserver.Login
import Pskynet.SocketLua.Stranded
