import Hpnl.Lib.Transition
import Hpnl.Chunk
import Hpnl.ChunkPool.Basic
import Hpnl.ChunkPool.World
import Hpnl.ChunkPool.Ids
import Hpnl.ChunkPool.UsedChunks
import Hpnl.Lib.KeyedCache
import Hpnl.MsgStack.RmaBuffers
import Hpnl.RdmConnection.Addresses
import Hpnl.HpnlBuffer.Basic
import Hpnl.HpnlBuffer.Reuse
import Hpnl.HpnlBuffer.RoundTrip
import Hpnl.Demultiplexer.Epoll
import Hpnl.Demultiplexer.Proactor
import Hpnl.Demultiplexer.ExternalEqDemultiplexer
import Hpnl.MsgStack.Connections
import Hpnl.ChunkMgr
import Hpnl.Connection.Basic
import Hpnl.Connection.Destructor
import Hpnl.Demultiplexer.Registration
import Hpnl.Java.SendWorld
import Hpnl.RdmConnection.Frame
import Hpnl.Java.SendOrder
import Hpnl.Java.Free
import Hpnl.Java.Credit
import Hpnl.Java.Payload
import Hpnl.Demultiplexer.CqDemultiplexer
import Hpnl.Java.Shutdown
import Hpnl.Connection.Status
import Hpnl.Demultiplexer.EqHandler
import Hpnl.Java.EqService
import Hpnl.Connection.Lifecycle
import Hpnl.Lib.Resources
import Hpnl.MsgStack.RmaRegions
import Hpnl.MsgStack.RmaThreads
import Hpnl.Java.MemPool
import Hpnl.Java.RmaBuffers
import Hpnl.Connection.Endpoints
import Hpnl.ExternalChunkMgr
import Hpnl.Demultiplexer.Completions
import Hpnl.Lib.Places
import Hpnl.Connection.Roles
import Hpnl.Java.BufferRoles
import Hpnl.RdmConnection.SetUp
import Hpnl.HpnlBuffer.Oversize
import Hpnl.HpnlBuffer.Frames
import Hpnl.ChunkPool.Regions
import Hpnl.ChunkPool.Shared
import Hpnl.Java.CqThreads
import Hpnl.Connection.Regions
import Hpnl.MsgStack.Lifecycle
import Hpnl.Service.Guards
import Hpnl.Java.Closing
import Hpnl.Java.ShutdownCallback
import Hpnl.Java.StaleShutdown
import Hpnl.Java.CloseCalls
import Hpnl.HpnlBuffer.Malformed
import Hpnl.Lib.ByteMemory
import Hpnl.RdmConnection.Encode
import Hpnl.Java.Reservation
import Hpnl.Java.ConnectCalls
import Hpnl.RdmConnection.Contexts
import Hpnl.MsgStack.RoundRobin
import Hpnl.Java.Confinement
import Hpnl.Service.Workers
import Hpnl.ChunkPool.Growth
import Hpnl.ExternalChunkMgr.Lookups
import Hpnl.ExternalChunkMgr.Destructor
import Hpnl.RdmConnection.Init
import Hpnl.Demultiplexer.WaitEvent
import Hpnl.Demultiplexer.ExternalRegistration
import Hpnl.Service.WorkerObjects
import Hpnl.Lib.VirtualCall
import Hpnl.Java.RmaRead
import Hpnl.Lib.Channel
import Hpnl.Java.SendSteps
import Hpnl.Java.Link
import Hpnl.Lib.Progress
import Hpnl.Service.Threads
import Hpnl.Service.Joins
import Hpnl.Service.EventShutdown
import Hpnl.RdmConnection.Exchange
import Hpnl.Lib.OpenObjects
import Hpnl.RdmStack.Lifecycle
import Hpnl.RdmStack.Teardown
