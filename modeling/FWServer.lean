import FWServer.Db.Shutdown
import FWServer.Db.Independence
import FWServer.Db.RecordStore
import FWServer.Db.AutoIncrement
import FWServer.Login.Authentication
import FWServer.Db.DbRedis
import FWServer.Db.Database
import FWServer.Db.DbCache
import FWServer.Db.DbTable
import FWServer.Kernel.Threads
import FWServer.User.GameUser
import FWServer.Msgpack.Pack
import FWServer.Msgpack.Handshake
import FWServer.Msgpack.Agreement
import FWServer.Db.Backend
import FWServer.Db.WriteBack
import FWServer.Kernel.Contract
import FWServer.Login.Registration
import FWServer.Gate.GateServer
import FWServer.Gate.Watchdog
import FWServer.Gate.Agents
import FWServer.Util.Timeouts
import FWServer.Login.RegisteredOnce
import FWServer.Lobby.Client
import FWServer.Lobby.CreatDesk
import FWServer.Lobby.GameConfigs
import FWServer.Lobby.Registry
import FWServer.Lobby.Seats
import FWServer.Cluster.Cluster
import FWServer.Cluster.Delivery
import FWServer.Kernel.Framing
import FWServer.Kernel.RingBuffer
import FWServer.Msgpack.Netpack
import FWServer.Msgpack.Reassembly
import FWServer.Msgpack.Packers
import FWServer.Msgpack.Unpackers
import FWServer.Msgpack.Cursors
import FWServer.Msgpack.PackedTables
import FWServer.Msgpack.MessagePackRoundTrip
import FWServer.Msgpack.Wire
import FWServer.Msgpack.Dispatch
import FWServer.Msgpack.Chunking
import FWServer.Db.RoomRecord
import FWServer.Kernel.Claims
import FWServer.Db.RoomIds
import FWServer.Skynet.MessageQueue
import FWServer.Kernel.Shelves
import FWServer.Skynet.Timer
import FWServer.Skynet.TimerWheel
import FWServer.Kernel.Reader
import FWServer.Kernel.Residues
import FWServer.Skynet.HandleStorage
import FWServer.Kernel.SortedArray
import FWServer.Skynet.HandleNames
import FWServer.Skynet.Handles
import FWServer.Skynet.SocketServer
import FWServer.Skynet.SocketQueue
import FWServer.Skynet.Connection
import FWServer.Skynet.Packages
import FWServer.Skynet.SendAssertions
import FWServer.Skynet.SocketIds
import FWServer.Kernel.LittleEndian
import FWServer.Kernel.Blocks
import FWServer.Seri.Values
import FWServer.Seri.Pack
import FWServer.Seri.Unpack
import FWServer.Seri.Stream
import FWServer.Seri.Safety
import FWServer.Seri.Leaves
import FWServer.Seri.RoundTrip
import FWServer.Cluster.FrameRoundTrip
import FWServer.Cluster.Clusterd
import FWServer.Skynet.ServiceGate
import FWServer.Kernel.Segments
import FWServer.Skynet.GateStream
import FWServer.Skynet.HarborStream
import FWServer.Skynet.HarborNames
import FWServer.Skynet.MulticastSubscriptions
import FWServer.Skynet.ThreadQueue
import FWServer.Skynet.DatacenterWaiters
import FWServer.Skynet.ServiceMgr
import FWServer.Skynet.UniqueServices
import FWServer.Cluster.LargeRequests
import FWServer.Skynet.DispatchMessage
import FWServer.Skynet.WakeupQueue
import FWServer.Msgpack.Encoders
import FWServer.Db.RecordFields
import FWServer.Util.TimerIds
import FWServer.Services.Broadcast
import FWServer.User.IdleLogout
import FWServer.Kernel.Accumulator
import FWServer.Msgpack.Base64
import FWServer.Db.DueRecords
import FWServer.Kernel.Tickets
import FWServer.Skynet.Launcher
import FWServer.Crypt.Des
import FWServer.Kernel.Feistel
import FWServer.Crypt.RoundTrip
import FWServer.Crypt.Padding
import FWServer.Crypt.KeyExchange
import FWServer.Crypt.Base64
import FWServer.Crypt.Hex
import FWServer.Skynet.ReservedHandle
import FWServer.Skynet.OversizeFrames
import FWServer.Skynet.HarborLimits
import FWServer.Kernel.Occurrence
import FWServer.Skynet.SocketBuffer
import FWServer.Skynet.SocketFifo
import FWServer.Kernel.Decimal
import FWServer.Kernel.Resp
import FWServer.Lua.Numerals
import FWServer.Skynet.RedisCodec
import FWServer.Skynet.RedisConnection
import FWServer.Skynet.RedisRoundTrip
import FWServer.Kernel.Chains
import FWServer.Skynet.Sharedata
import FWServer.Skynet.SharedSlots
import FWServer.Skynet.SharedKeys
import FWServer.Skynet.SharedReading
import FWServer.Skynet.SharedTables
import FWServer.Kernel.Programs
import FWServer.Skynet.Scheduler
import FWServer.Skynet.ServiceLife
import FWServer.Skynet.Scheduling
import FWServer.Skynet.SchedulerSteps
import FWServer.Skynet.SchedulerRuns
import FWServer.Util.Split
import FWServer.Db.RedisPool
import FWServer.Skynet.HashIdSlots
import FWServer.Skynet.DatabufferFifo
import FWServer.Skynet.HarborDown
import FWServer.Skynet.Rwlock
import FWServer.Kernel.Counts
import FWServer.Skynet.Stm
import FWServer.Skynet.StmObject
import FWServer.Skynet.StmCopies
import FWServer.Skynet.StmSafety
import FWServer.Kernel.Precedence
import FWServer.Skynet.Slaves
import FWServer.Skynet.SlaveNames
import FWServer.Skynet.SlaveAgreement
import FWServer.Skynet.SlaveMesh
import FWServer.Skynet.Msgserver
import FWServer.Skynet.MsgserverOnline
import FWServer.Skynet.MsgserverRetire
import FWServer.Skynet.MsgserverCache
