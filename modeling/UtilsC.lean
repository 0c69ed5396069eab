import UtilsC.Lib.Bytes
import UtilsC.Lib.Chain
import UtilsC.Lib.Ring
import UtilsC.Lib.Rewire
import UtilsC.List.ListHead
import UtilsC.List.Operations
import UtilsC.List.Refine
import UtilsC.Time.Wheel
import UtilsC.Time.Stamp
import UtilsC.Time.Timer
import UtilsC.Time.Cascade
import UtilsC.Time.Periodic
import UtilsC.Time.Delete
import UtilsC.Time.FirstFiring
import UtilsC.Time.Deadline
import UtilsC.Hash.Key
import UtilsC.Hash.Crc64
import UtilsC.Hash.Table
import UtilsC.Hash.Invariant
import UtilsC.Hash.Refine
import UtilsC.Hash.U64Table
import UtilsC.Hash.Handler
import UtilsC.Hash.Next
import UtilsC.Lib.Ledger
import UtilsC.Hash.Ownership
import UtilsC.Hash.Update
import UtilsC.Hash.StringKey
import UtilsC.Hash.RandomNode
import UtilsC.Random.Urandom
import UtilsC.Ipc.Proto
import UtilsC.Ipc.Seq
import UtilsC.Ipc.Socket
import UtilsC.Ipc.Client
import UtilsC.Ipc.AckWait
import UtilsC.Ipc.Deadline
import UtilsC.Ipc.AckTable
import UtilsC.Ipc.Registry
import UtilsC.Ipc.Uuid
import UtilsC.Ipc.Delivery
import UtilsC.Ipc.Dispatch
import UtilsC.Lib.Framing
import UtilsC.Lib.SharedStream
import UtilsC.Ipc.Io
import UtilsC.Ipc.Reader
import UtilsC.Ipc.Block
import UtilsC.Ipc.ReaderSafe
import UtilsC.Ipc.Split
import UtilsC.Ipc.Handed
import UtilsC.Ipc.Exchange
import UtilsC.Ipc.EndToEnd
import UtilsC.Ipc.Service
import UtilsC.Ipc.ClientReader
import UtilsC.Ipc.ByteExchange
import UtilsC.Lib.BlockHeap
import UtilsC.Ipc.ServerMemory
import UtilsC.Lib.Machine
import UtilsC.Lib.WorkQueue
import UtilsC.Threadpool.Pool
import UtilsC.Threadpool.System
import UtilsC.Threadpool.Conserve
import UtilsC.Threadpool.Run
import UtilsC.Threadpool.Kept
import UtilsC.Threadpool.Wakeup
import UtilsC.Threadpool.Shutdown
import UtilsC.Lib.Tower
import UtilsC.Skiplist.Model
import UtilsC.Skiplist.Column
import UtilsC.Skiplist.Invariant
import UtilsC.Skiplist.Insert
import UtilsC.Skiplist.Delete
import UtilsC.Skiplist.Run
import UtilsC.Skiplist.SortedSet
import UtilsC.Skiplist.Free
import UtilsC.Skiplist.Rank
import UtilsC.Skiplist.Select
import UtilsC.Lib.Hex
import UtilsC.Util.Mac
import UtilsC.Hash.Extent
import UtilsC.Hash.Replace
import UtilsC.Ipc.IoReturn
import UtilsC.Threadpool.Create
import UtilsC.Threadpool.AddTask
import UtilsC.Threadpool.Threads
import UtilsC.Threadpool.Close
import UtilsC.Threadpool.Drain
import UtilsC.Threadpool.Terminate
import UtilsC.Ipc.Accept
import UtilsC.Lib.Placement
import UtilsC.Ipc.Received
import UtilsC.Ipc.SeqDraw
import UtilsC.Hash.CrcBits
import UtilsC.Util.HostRange
import UtilsC.Time.SlotZero
