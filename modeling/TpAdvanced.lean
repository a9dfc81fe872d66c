import TpAdvanced.Coroutine.Nested
import TpAdvanced.Coroutine.StaleIds
import TpAdvanced.Http.AtRest
import TpAdvanced.Http.BodyLength
import TpAdvanced.Http.EventLoop
import TpAdvanced.Http.Framing
import TpAdvanced.Http.HeaderAccesses
import TpAdvanced.Http.HeaderValue
import TpAdvanced.Http.ParserErrors
import TpAdvanced.Http.PathView
import TpAdvanced.Http.Shutdown
import TpAdvanced.Http.TableKeys
import TpAdvanced.Http.WellFormed
import TpAdvanced.Http.WorkerPool
import TpAdvanced.Http.WorkerTimeouts
import TpAdvanced.Kvstore.MappedFile
import TpAdvanced.Kvstore.Session
import TpAdvanced.Log.ThreadSafe
import TpAdvanced.Process.ChildPipes
import TpAdvanced.Process.ExactTransfer
import TpAdvanced.Process.RoundTrip
import TpAdvanced.Process.StdinEnds
import TpAdvanced.Shmem.Alignment
import TpAdvanced.Shmem.MapConstruction
import TpAdvanced.Shmem.MapLocks
import TpAdvanced.Shmem.SharedMap
import TpAdvanced.Shmem.Stack
import TpAdvanced.Tcp.Descriptors
import TpAdvanced.Tcp.EchoServer
import TpAdvanced.Tcp.EchoSocket
import TpAdvanced.Tcp.ServerObject
